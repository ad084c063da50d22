import Mathlib.Tactic
import StyleFunctions.Proofs.Color.Hex
import StyleFunctions.Proofs.Function.Typing
import StyleFunctions.Proofs.Number.Binary64

/-!
# Hexadecimal colours read back

What is written of an opaque colour is read back as the colour of its nearest bytes, from six
digits as from three, and what is read is written with the digits that were read.

* `Color.ofHexDigits?_eq_some` — the bytes that digits stand for are those whose digits they are,
  in lower case and, where there are three, each twice.
* `Color.ofHexDigits?_hexPairs` — the six digits of three bytes are read as these bytes.
* `Color.ofHexDigits?_getD_shortDigits?` — so are the three digits that six are shortened to.
* `Color.hexDigits_eq` — the bytes that are written are the channels' nearest ones.
* `Color.hex_round_trip` — reading and writing together, with the function that reads a string.
-/

namespace StyleFunctions.Color

/-! ## Digits -/

theorem hexValue?_digitChar {n : Nat} (h : n < 16) : hexValue? (Nat.digitChar n) = some n := by
  revert n
  decide

theorem isHexDigit_digitChar {n : Nat} (h : n < 16) : IsHexDigit (Nat.digitChar n) := by
  rw [← hexValue?_isSome_iff, hexValue?_digitChar h]
  rfl

theorem IsHexDigit.toNat_lt {c : Char} (h : IsHexDigit c) : c.toNat < 128 := by
  have hbound {z : Char} (hz : z.toNat < 128) (hc : c ≤ z) : c.toNat < 128 :=
    lt_of_le_of_lt (UInt32.le_iff_toNat_le.1 hc) hz
  rcases h with ⟨-, h⟩ | ⟨-, h⟩ | ⟨-, h⟩ <;> exact hbound (by decide) h

/-- A digit in lower case is the digit of its value. -/
theorem digitChar_of_hexValue? {c : Char} {n : Nat} (h : hexValue? c = some n) :
    n < 16 ∧ Nat.digitChar n = c.toLower := by
  have hall : ∀ k < 128, ∀ n ∈ hexValue? (Char.ofNat k),
      n < 16 ∧ Nat.digitChar n = (Char.ofNat k).toLower := by decide
  have hdigit : IsHexDigit c := (hexValue?_isSome_iff c).1 (by rw [h]; rfl)
  rw [← Char.ofNat_toNat c] at h ⊢
  exact hall c.toNat hdigit.toNat_lt n h

/-- Digits in lower case are the digits of their values. -/
theorem map_toLower_of_mapM_hexValue? {digits : List Char} {values : List Nat}
    (h : digits.mapM hexValue? = some values) :
    digits.map Char.toLower = values.map Nat.digitChar ∧ ∀ n ∈ values, n < 16 := by
  induction digits generalizing values with
  | nil =>
    simp only [List.mapM_nil, Option.pure_def, Option.some.injEq] at h
    subst h
    simp
  | cons c rest ih =>
    obtain ⟨n, hn, others, hothers, rfl⟩ : ∃ n, hexValue? c = some n ∧
        ∃ others, rest.mapM hexValue? = some others ∧ n :: others = values := by
      simpa [List.mapM_cons, Option.bind_eq_some_iff] using h
    obtain ⟨hlt, hdigit⟩ := digitChar_of_hexValue? hn
    obtain ⟨hdigits, hall⟩ := ih hothers
    exact ⟨by rw [List.map_cons, List.map_cons, hdigit, hdigits],
      List.forall_mem_cons.2 ⟨hlt, hall⟩⟩

/-! ## Reading -/

/-- The six digits in lower case that three or six digits stand for; of three each counts
twice. -/
def longDigits : List Char → List Char
  | [r, g, b] => [r, r, g, g, b, b].map Char.toLower
  | digits => digits.map Char.toLower

/-- The six digits of three bytes. -/
def hexPairs (r g b : Nat) : List Char := hexPair r ++ hexPair g ++ hexPair b

theorem hexPair_of_lt {high low : Nat} (h : low < 16) :
    hexPair (16 * high + low) = [Nat.digitChar high, Nat.digitChar low] := by
  have hdiv : (16 * high + low) / 16 = high := by omega
  have hmod : (16 * high + low) % 16 = low := by omega
  rw [hexPair, hdiv, hmod]

section

variable {α : Type} [Scalar α]

/-- The opaque colour of three bytes. -/
def ofBytes (r g b : Nat) : Color α := ⟨Scalar.ofInt r, Scalar.ofInt g, Scalar.ofInt b, 1⟩

/-- The bytes that digits stand for are those whose digits they are. -/
theorem ofHexDigits?_eq_some {digits : List Char} {c : Color α}
    (h : ofHexDigits? digits = some c) :
    ∃ r g b, r < 256 ∧ g < 256 ∧ b < 256 ∧ c = ofBytes r g b ∧
      longDigits digits = hexPairs r g b := by
  rw [ofHexDigits?] at h
  split at h
  · rename_i r r' g g' b b' hvalues
    obtain ⟨hlower, hall⟩ := map_toLower_of_mapM_hexValue? hvalues
    have hlength := length_of_mapM_hexValue? hvalues
    simp only [List.forall_mem_cons, List.not_mem_nil, false_implies, implies_true, and_true]
      at hall
    obtain ⟨hr, hr', hg, hg', hb, hb'⟩ := hall
    refine ⟨16 * r + r', 16 * g + g', 16 * b + b', by omega, by omega, by omega,
      (Option.some.inj h).symm, ?_⟩
    rw [hexPairs, hexPair_of_lt hr', hexPair_of_lt hg', hexPair_of_lt hb', longDigits, hlower]
    · rfl
    · rintro x y z rfl
      simp at hlength
  · rename_i r g b hvalues
    obtain ⟨hlower, hall⟩ := map_toLower_of_mapM_hexValue? hvalues
    have hlength := length_of_mapM_hexValue? hvalues
    simp only [List.forall_mem_cons, List.not_mem_nil, false_implies, implies_true, and_true]
      at hall
    obtain ⟨hr, hg, hb⟩ := hall
    obtain ⟨x, y, z, rfl⟩ := List.length_eq_three.1 hlength.symm
    simp only [List.map_cons, List.map_nil, List.cons.injEq, and_true] at hlower
    obtain ⟨hx, hy, hz⟩ := hlower
    refine ⟨16 * r + r, 16 * g + g, 16 * b + b, by omega, by omega, by omega,
      (Option.some.inj h).symm, ?_⟩
    rw [hexPairs, hexPair_of_lt hr, hexPair_of_lt hg, hexPair_of_lt hb, longDigits]
    simp only [List.map_cons, List.map_nil, hx, hy, hz]
    rfl
  · cases h

theorem isHex_hexPairs {r g b : Nat} (hr : r < 256) (hg : g < 256) (hb : b < 256) :
    IsHex (hexPairs r g b) := by
  refine ⟨Or.inr rfl, ?_⟩
  simp only [hexPairs, hexPair, List.cons_append, List.nil_append, List.forall_mem_cons]
  refine ⟨?_, ?_, ?_, ?_, ?_, ?_, by simp⟩ <;> exact isHexDigit_digitChar (by omega)

/-- The six digits of three bytes are read as these bytes. -/
theorem ofHexDigits?_hexPairs {r g b : Nat} (hr : r < 256) (hg : g < 256) (hb : b < 256) :
    ofHexDigits? (hexPairs r g b) = some (ofBytes r g b : Color α) := by
  have hvalues : (hexPairs r g b).mapM hexValue? =
      some [r / 16, r % 16, g / 16, g % 16, b / 16, b % 16] := by
    have hdigit {n : Nat} (h : n < 16) := hexValue?_digitChar h
    simp [hexPairs, hexPair, hdigit (show r / 16 < 16 by omega),
      hdigit (show r % 16 < 16 by omega), hdigit (show g / 16 < 16 by omega),
      hdigit (show g % 16 < 16 by omega), hdigit (show b / 16 < 16 by omega),
      hdigit (show b % 16 < 16 by omega)]
  rw [ofHexDigits?, hvalues]
  simp only [channelOfPair, Nat.div_add_mod, ofBytes]

theorem shortDigits?_eq_some {digits short : List Char} (h : shortDigits? digits = some short) :
    ∃ r g b, digits = [r, r, g, g, b, b] ∧ short = [r, g, b] := by
  unfold shortDigits? at h
  split at h
  · rename_i r r' g g' b b'
    obtain ⟨⟨rfl, rfl, rfl⟩, hshort⟩ := Option.ite_none_right_eq_some.1 h
    exact ⟨r, g, b, rfl, (Option.some.inj hshort).symm⟩
  · cases h

/-- Three digits are read like the six in which each of them stands twice. -/
theorem ofHexDigits?_three (r g b : Char) :
    (ofHexDigits? [r, g, b] : Option (Color α)) = ofHexDigits? [r, r, g, g, b, b] := by
  rw [ofHexDigits?, ofHexDigits?]
  cases hr : hexValue? r with
  | none => simp [hr]
  | some red =>
    cases hg : hexValue? g with
    | none => simp [hr, hg]
    | some green => cases hb : hexValue? b <;> simp [hr, hg, hb]

/-- Digits that are shortened where they can be are read as before. -/
theorem ofHexDigits?_getD_shortDigits? {digits : List Char} {c : Color α} (h : IsHex digits)
    (hread : ofHexDigits? digits = some c) :
    IsHex ((shortDigits? digits).getD digits) ∧
      ofHexDigits? ((shortDigits? digits).getD digits) = some c := by
  cases hshort : shortDigits? digits with
  | none => exact ⟨h, hread⟩
  | some short =>
    obtain ⟨r, g, b, rfl, rfl⟩ := shortDigits?_eq_some hshort
    refine ⟨⟨Or.inl rfl, fun x hx => h.2 x ?_⟩, ?_⟩
    · rw [Option.getD_some] at hx
      simp only [List.mem_cons, List.not_mem_nil, or_false] at hx ⊢
      tauto
    · rw [Option.getD_some, ofHexDigits?_three, hread]

/-- The function that reads a colour from a string takes digits behind one character. -/
theorem call_color {c : Color α} {q : Quoted} {digits : List Char}
    (hread : ofHexDigits? digits = some c) (hq : q.text = String.ofList ('#' :: digits))
    (settings : Settings) {name : String} (hname : Builtin.canonicalName name = Builtin.color.name)
    (site : CallSite) : settings.call name [.quoted q] site = .ok (some (.color c)) := by
  refine (Settings.call_eq_ok_iff settings site hname rfl _).2 ?_
  have hcolor : Conversion.color (.quoted q) = .ok c := by
    rw [Conversion.color, hq, String.toList_ofList, List.drop_one, List.tail_cons, hread]
  change (do return some (Value.color (← Conversion.color (.quoted q)))) = _
  rw [hcolor]
  rfl

end

/-! ## Writing -/

section

variable {α : Type} [Scalar α]

/-- The byte nearest to a scalar: its exact value rounded, a half going away from zero, and
drawn into the range of a byte.  Infinities go to the ends of that range, and what is not a
number to zero. -/
def nearestByte (x : α) : Nat :=
  match Scalar.value? x with
  | some q => (Rounding.saturate 0 255 (Rounding.halfAway q)).toNat
  | none => if Scalar.isNaN x || decide (x < 0) then 0 else 255

/-- The opaque colour with the bytes nearest to a colour's channels. -/
def nearestBytes (c : Color α) : Color α :=
  ofBytes (nearestByte c.red) (nearestByte c.green) (nearestByte c.blue)

/-- The six digits of the bytes nearest to a colour's channels. -/
def nearestPairs (c : Color α) : List Char :=
  hexPairs (nearestByte c.red) (nearestByte c.green) (nearestByte c.blue)

theorem nearestByte_lt (x : α) : nearestByte x < 256 := by
  rw [nearestByte]
  split
  · have h := Rounding.saturate_mem (by decide : (0 : Int) ≤ 255) (Rounding.halfAway ‹Rat›)
    omega
  · split <;> omega

theorem nearestByte_ofInt [LawfulScalar α] {n : Nat} (h : n < 256) :
    nearestByte (Scalar.ofInt n : α) = n := by
  have hvalue : Scalar.value? (Scalar.ofInt n : α) = some ((n : Int) : Rat) :=
    LawfulScalar.value?_ofInt (by rw [abs_of_nonneg] <;> omega)
  rw [nearestByte, hvalue]
  simp only [Int.cast_natCast]
  rw [Rounding.halfAway_natCast, Rounding.saturate_eq_self (by omega) (by omega), Int.toNat_natCast]

/-- What is written of a channel is the byte nearest to it. -/
theorem channelByte_eq [LawfulScalar α] (x : α) : channelByte x = nearestByte x := by
  rw [channelByte, Scalar.toIntIn, nearestByte]
  cases hx : Scalar.value? x with
  | some q =>
    rw [LawfulScalar.value?_round hx]
    simp only [Rounding.towardZero_intCast]
  | none =>
    have hround : Scalar.round x = x := by rw [Scalar.round, Scalar.roundBy, hx]
    rw [hround, hx]
    cases hnan : Scalar.isNaN x <;> by_cases hneg : x < 0 <;> simp [hneg]

variable [LawfulScalar α]

theorem hexDigits_eq (c : Color α) : c.hexDigits = c.nearestPairs := by
  simp only [hexDigits, hexChannel, channelByte_eq, nearestPairs, hexPairs]

theorem css_of_one_le {c : Color α} (h : 1 ≤ c.alpha) (options : CssOptions) :
    c.css options = c.hexText options := by
  rw [css, if_neg (LawfulScalar.not_lt_of_le h)]

/-- The digits of an opaque colour stand for the nearest bytes, the short ones included. -/
theorem exists_css_eq {c : Color α} (h : 1 ≤ c.alpha) (options : CssOptions) :
    ∃ digits, c.css options = String.ofList ('#' :: digits) ∧ IsHex digits ∧
      ofHexDigits? digits = some c.nearestBytes ∧
      (options.compress = false → digits = c.nearestPairs) := by
  have hlong : IsHex c.nearestPairs := isHex_hexPairs (nearestByte_lt _) (nearestByte_lt _)
    (nearestByte_lt _)
  have hread : ofHexDigits? c.nearestPairs = some c.nearestBytes :=
    ofHexDigits?_hexPairs (nearestByte_lt _) (nearestByte_lt _) (nearestByte_lt _)
  obtain ⟨hshort, hshortRead⟩ := ofHexDigits?_getD_shortDigits? hlong hread
  rw [css_of_one_le h, hexText, hexDigits_eq]
  cases options.compress with
  | false => exact ⟨_, rfl, hlong, hread, fun _ => rfl⟩
  | true => exact ⟨_, rfl, hshort, hshortRead, nofun⟩

theorem argbText_eq (c : Color α) :
    c.argbText =
      String.ofList ('#' :: (hexPair (nearestByte (c.alpha * 255)) ++ c.nearestPairs)) := by
  rw [argbText, hexChannel, channelByte_eq, hexDigits_eq]

/-- Digits that are read are those that are written. -/
theorem css_of_ofHexDigits?_eq_some {digits : List Char} {c : Color α}
    (h : ofHexDigits? digits = some c) : c.css {} = String.ofList ('#' :: longDigits digits) := by
  obtain ⟨r, g, b, hr, hg, hb, rfl, hdigits⟩ := ofHexDigits?_eq_some h
  rw [css_of_one_le LawfulScalar.one_le_one, hexText, hexDigits_eq, nearestPairs, ofBytes,
    nearestByte_ofInt hr, nearestByte_ofInt hg, nearestByte_ofInt hb, hdigits]
  rfl

end

/-! ## Round trips -/

/-- A text is read as a colour exactly if it consists of three or six hexadecimal digits.  The
colour is opaque, has the bytes of the digits as channels, and is written with these digits in
lower case and full length.

An opaque colour is written, at full length or compressed, with digits that stand for the bytes
nearest to its channels, also where the function that reads a colour finds them in a string.
With the opacity in front, its nearest byte precedes the same six digits. -/
theorem hex_round_trip {α : Type} [Scalar α] [LawfulScalar α] :
    (∀ text : String,
      ((ofHex? text : Option (Color α)).isSome ↔ IsHex text.toList) ∧
      ∀ c : Color α, ofHex? text = some c →
        (∃ r g b, r < 256 ∧ g < 256 ∧ b < 256 ∧ c = ofBytes r g b ∧
          longDigits text.toList = hexPairs r g b) ∧
        c.css {} = String.ofList ('#' :: longDigits text.toList)) ∧
    (∀ (c : Color α) (options : CssOptions), 1 ≤ c.alpha →
      ∃ digits, c.css options = String.ofList ('#' :: digits) ∧ IsHex digits ∧
        ofHex? (String.ofList digits) = some c.nearestBytes ∧
        (options.compress = false → digits = c.nearestPairs) ∧
        ∀ (settings : Settings) (name : String) (q : Quoted) (site : CallSite),
          Builtin.canonicalName name = Builtin.color.name → q.text = c.css options →
          settings.call name [.quoted q] site = .ok (some (.color c.nearestBytes))) ∧
    ∀ c : Color α, c.argbText =
      String.ofList ('#' :: (hexPair (nearestByte (c.alpha * 255)) ++ c.nearestPairs)) := by
  refine ⟨?_, ?_, argbText_eq⟩
  · intro text
    refine ⟨ofHexDigits?_isSome_iff text.toList, fun c hc => ⟨ofHexDigits?_eq_some hc, ?_⟩⟩
    exact css_of_ofHexDigits?_eq_some hc
  · intro c options hopaque
    obtain ⟨digits, hcss, hhex, hread, hlong⟩ := exists_css_eq hopaque options
    refine ⟨digits, hcss, hhex, ?_, hlong, ?_⟩
    · rw [ofHex?, String.toList_ofList, hread]
    · intro settings name q site hname hq
      exact call_color hread (hq.trans hcss) settings hname site

/-- Three digits of both cases, and a binary64 colour whose channels are cut off below and above
and rounded up from a half, in compressed output. -/
theorem hex_round_trip_azure :
    let azure : Color Float := ⟨-20, 135.5, 1000, 1⟩
    (∀ c : Color Float, ofHex? "08F" = some c → c.css {} = "#0088ff") ∧
    1 ≤ azure.alpha ∧ azure.nearestBytes = ofBytes 0 0x88 0xFF ∧
      ∃ digits, azure.css ⟨true⟩ = String.ofList ('#' :: digits) ∧
        ofHex? (String.ofList digits) = some azure.nearestBytes := by
  intro azure
  have hbytes : azure.nearestBytes = ofBytes 0 0x88 0xFF := by decide +kernel
  have hopaque : 1 ≤ azure.alpha := LawfulScalar.one_le_one
  refine ⟨fun c hc => ?_, hopaque, hbytes, ?_⟩
  · exact ((hex_round_trip.1 "08F").2 c hc).2
  · obtain ⟨digits, hcss, -, hread, -⟩ := hex_round_trip.2.1 azure ⟨true⟩ hopaque
    exact ⟨digits, hcss, hread⟩

end StyleFunctions.Color
