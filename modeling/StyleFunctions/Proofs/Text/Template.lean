import Mathlib.Tactic
import StyleFunctions.Number.Exact
import StyleFunctions.Proofs.Text.Token
import StyleFunctions.Proofs.Text.UrlEncoding

/-!
# Templates filled in

What a template gives to arguments that bring no percent sign of their own.

* `collapse_append` — doubled percent signs do not stretch over a seam behind another sign.
* `tokenPlace?_bytes` — a search through the bytes of a text finds the tokens of the text, between
  whole characters (`exists_of_tokenPlace?_bytes`).
* `foldl_substituteBytes` — substitutions among the bytes of a text are those in the text.
* `format_of_cut` — the text that a template gives.
-/

namespace StyleFunctions.Template

open UrlEncoding

/-! ## Doubled percent signs -/

theorem collapse_cons_of_ne {c : Char} (h : c ≠ '%') (text : List Char) :
    collapse (c :: text) = c :: collapse text := by
  cases text with
  | nil => rfl
  | cons d rest => rw [collapse, if_neg (by simp [h])]

/-- Doubled percent signs do not stretch over a seam behind another sign. -/
theorem collapse_append {first : List Char} (h : first.getLast? ≠ some '%') (second : List Char) :
    collapse (first ++ second) = collapse first ++ collapse second := by
  induction first using collapse.induct with
  | case1 => rfl
  | case2 c =>
    have hc : c ≠ '%' := by simpa using h
    rw [List.singleton_append, collapse_cons_of_ne hc]
    rfl
  | case3 c d rest hdouble ih =>
    have hrest : rest.getLast? ≠ some '%' := by
      cases rest with
      | nil => simp
      | cons e rest => simpa [List.getLast?_cons_cons] using h
    rw [List.cons_append, List.cons_append, collapse, if_pos hdouble, ih hrest, collapse,
      if_pos hdouble]
    rfl
  | case4 c d rest hsingle ih =>
    have hrest : (d :: rest).getLast? ≠ some '%' := by
      simpa [List.getLast?_cons_cons] using h
    rw [List.cons_append, List.cons_append, collapse, if_neg hsingle, ← List.cons_append,
      ih hrest, collapse, if_neg hsingle]
    rfl

theorem collapse_of_notMem {text : List Char} (h : '%' ∉ text) : collapse text = text := by
  induction text with
  | nil => rfl
  | cons c rest ih =>
    rw [List.mem_cons, not_or] at h
    rw [collapse_cons_of_ne (Ne.symm h.1), ih h.2]

theorem getLast?_append_ne {first second : List Char} (hfirst : first.getLast? ≠ some '%')
    (hsecond : second.getLast? ≠ some '%') : (first ++ second).getLast? ≠ some '%' := by
  cases h : second.getLast? with
  | none =>
    rw [List.getLast?_eq_none_iff.1 h, List.append_nil]
    exact hfirst
  | some c =>
    rw [List.getLast?_append, h]
    rwa [h] at hsecond

/-- Pieces that do not end in a percent sign are collapsed one by one. -/
theorem collapse_flatMap {β : Type} {pieces : List β} {f : β → List Char}
    (h : ∀ p ∈ pieces, (f p).getLast? ≠ some '%') (rest : List Char) :
    collapse (pieces.flatMap f ++ rest) =
      (pieces.flatMap fun p => collapse (f p)) ++ collapse rest := by
  induction pieces with
  | nil => rfl
  | cons p pieces ih =>
    rw [List.forall_mem_cons] at h
    rw [List.flatMap_cons, List.flatMap_cons, List.append_assoc, collapse_append h.1, ih h.2,
      List.append_assoc]

/-! ## Bytes -/

/-- The bytes of a text. -/
def bytes (text : List Char) : List UInt8 := text.flatMap String.utf8EncodeChar

theorem bytes_cons (c : Char) (text : List Char) :
    bytes (c :: text) = String.utf8EncodeChar c ++ bytes text := rfl

theorem bytes_append (first second : List Char) :
    bytes (first ++ second) = bytes first ++ bytes second := List.flatMap_append

theorem lt_of_isTokenLetter {c : Char} (h : isTokenLetter c = true) : c.toNat < 128 := by
  have hmem := isTokenLetter_iff.1 h
  fin_cases hmem <;> decide

/-- Of the bytes of a character, the first tells whether it is the letter of a token. -/
theorem exists_utf8EncodeChar_eq_cons (c : Char) : ∃ b rest,
    String.utf8EncodeChar c = b :: rest ∧
      isTokenLetter (charOfByte b) = isTokenLetter c := by
  by_cases hc : c.toNat < 128
  · exact ⟨_, [], utf8EncodeChar_of_lt hc, by rw [charOfByte_ofNat hc]⟩
  · obtain ⟨b, rest, hbytes⟩ := List.exists_cons_of_ne_nil
      (String.utf8EncodeChar_ne_nil (c := c))
    have hb : 128 ≤ b.toNat := le_of_mem_utf8EncodeChar (not_lt.1 hc) b (by simp [hbytes])
    have hbyte : isTokenLetter (charOfByte b) = false := by
      rw [Bool.eq_false_iff]
      intro hletter
      have := lt_of_isTokenLetter hletter
      rw [toNat_charOfByte] at this
      omega
    have hchar : isTokenLetter c = false := by
      rw [Bool.eq_false_iff]
      exact fun hletter => hc (lt_of_isTokenLetter hletter)
    exact ⟨b, rest, hbytes, hbyte.trans hchar.symm⟩

theorem notMem_utf8EncodeChar {c : Char} (h : c ≠ '%') : 37 ∉ String.utf8EncodeChar c := by
  intro hmem
  exact h ((mem_utf8EncodeChar_iff (d := '%') (by decide)).1 hmem)

/-- The place of the first token among bytes. -/
def tokenPlace? : List UInt8 → Option Nat
  | sign :: letter :: rest =>
    if sign = 37 && isTokenLetter (charOfByte letter) then some 0
    else (tokenPlace? (letter :: rest)).map (· + 1)
  | _ => none

theorem tokenPlace?_append {first : List UInt8} (h : 37 ∉ first) (second : List UInt8) :
    tokenPlace? (first ++ second) = (tokenPlace? second).map (first.length + ·) := by
  induction first with
  | nil => simp
  | cons b first ih =>
    rw [List.mem_cons, not_or] at h
    have hcons : tokenPlace? (b :: (first ++ second)) =
        (tokenPlace? (first ++ second)).map (· + 1) := by
      cases first ++ second with
      | nil => rfl
      | cons letter rest => rw [tokenPlace?, if_neg (by simp [Ne.symm h.1])]
    rw [List.cons_append, hcons, ih h.2]
    cases tokenPlace? second with
    | none => rfl
    | some place => exact congrArg some (by simp; omega)

/-- A search through the bytes of a text finds the first token of the text. -/
theorem tokenPlace?_bytes (text : List Char) :
    tokenPlace? (bytes text) = (splitToken? text).map fun split => (bytes split.1).length := by
  induction text with
  | nil => rfl
  | cons c text ih =>
    by_cases hc : c = '%'
    · subst hc
      cases text with
      | nil => rfl
      | cons d rest =>
        obtain ⟨b, others, hd, hletter⟩ := exists_utf8EncodeChar_eq_cons d
        have hbytes : bytes (d :: rest) = b :: (others ++ bytes rest) := by
          rw [bytes_cons, hd, List.cons_append]
        have hsearch : tokenPlace? (bytes ('%' :: d :: rest)) =
            if isTokenLetter d then some 0
            else (tokenPlace? (bytes (d :: rest))).map (· + 1) := by
          rw [bytes_cons, hbytes, ← hletter]
          change tokenPlace? (37 :: b :: (others ++ bytes rest)) = _
          rw [tokenPlace?]
          rfl
        rw [hsearch]
        split
        · rename_i htoken
          rw [splitToken?_token htoken]
          rfl
        · rename_i hno
          rw [ih, splitToken?_cons fun hstart => hno (startsToken_cons_cons.1 hstart).2]
          cases splitToken? (d :: rest) with
          | none => rfl
          | some split => rfl
    · rw [bytes_cons, tokenPlace?_append (notMem_utf8EncodeChar hc), ih,
        splitToken?_cons fun hstart => ?_]
      · cases splitToken? text with
        | none => rfl
        | some split => simp [prepend, bytes_cons]
      · cases text with
        | nil => exact hstart
        | cons d rest => exact hc hstart.1

section

variable {α : Type} [Scalar α] {options : CssOptions}

/-- Bytes with an argument in the place of the first token, which is two bytes long. -/
def substituteBytes (options : CssOptions) (text : List UInt8) (argument : Value α) :
    List UInt8 :=
  match tokenPlace? text with
  | some place =>
    let letter := charOfByte (text.getD (place + 1) 0)
    text.take place ++ utf8Bytes (supply options letter argument) ++
      text.drop (place + 2)
  | none => text

/-- The bytes of a token are found at the border of characters. -/
theorem exists_of_tokenPlace?_bytes {text : List Char} {place : Nat}
    (h : tokenPlace? (bytes text) = some place) : ∃ before letter after,
      splitToken? text = some (before, letter, after) ∧
      text = before ++ ['%', letter] ++ after ∧ (bytes before).length = place ∧
      (bytes (before ++ ['%', letter])).length = place + 2 := by
  rw [tokenPlace?_bytes, Option.map_eq_some_iff] at h
  obtain ⟨⟨before, letter, after⟩, hsplit, rfl⟩ := h
  obtain ⟨htext, hletter, -⟩ := splitToken?_eq_some hsplit
  refine ⟨before, letter, after, hsplit, by simp [htext], rfl, ?_⟩
  rw [bytes_append, bytes_cons, bytes_cons, utf8EncodeChar_of_lt (lt_of_isTokenLetter hletter),
    List.length_append]
  rfl

/-- Replacing the bytes of a token is replacing the token. -/
theorem substituteBytes_bytes (text : List Char) (argument : Value α) :
    substituteBytes options (bytes text) argument = bytes (substitute options text argument) := by
  rw [substituteBytes, tokenPlace?_bytes, substitute]
  cases hsplit : splitToken? text with
  | none => rfl
  | some split =>
    obtain ⟨before, letter, after⟩ := split
    obtain ⟨rfl, hletter, -⟩ := splitToken?_eq_some hsplit
    have hlt := lt_of_isTokenLetter hletter
    have hbytes : bytes (before ++ '%' :: letter :: after) =
        bytes before ++ 37 :: UInt8.ofNat letter.toNat :: bytes after := by
      rw [bytes_append, bytes_cons, bytes_cons, utf8EncodeChar_of_lt hlt]
      rfl
    have hfound : (bytes before ++ 37 :: UInt8.ofNat letter.toNat :: bytes after).getD
        ((bytes before).length + 1) 0 = UInt8.ofNat letter.toNat := by
      rw [List.getD_eq_getElem?_getD, List.getElem?_append_right (by omega)]
      simp
    have htake : (bytes before ++ 37 :: UInt8.ofNat letter.toNat :: bytes after).take
        (bytes before).length = bytes before := List.take_left
    have hdrop : (bytes before ++ 37 :: UInt8.ofNat letter.toNat :: bytes after).drop
        ((bytes before).length + 2) = bytes after := by
      rw [List.drop_append]
      simp
    simp only [Option.map_some]
    rw [hbytes, hfound, htake, hdrop, charOfByte_ofNat hlt, bytes_append, bytes_append]
    rfl

theorem foldl_substituteBytes (text : List Char) (arguments : List (Value α)) :
    arguments.foldl (substituteBytes options) (bytes text) =
      bytes (arguments.foldl (substitute options) text) := by
  induction arguments generalizing text with
  | nil => rfl
  | cons argument arguments ih =>
    rw [List.foldl_cons, substituteBytes_bytes, ih, List.foldl_cons]

/-! ## Formatting -/

/-- No text before a token ends in a percent sign, and no argument supplies one. -/
def Plain (options : CssOptions) (parts : List (List Char × Char))
    (arguments : List (Value α)) : Prop :=
  ∀ p ∈ parts.zip arguments,
    p.1.1.getLast? ≠ some '%' ∧ '%' ∉ (supply options p.1.2 p.2).toList

/-- The text before a token that does not end in a percent sign, and what an argument without a
percent sign supplies for the token, are settled. -/
theorem Plain.settled {parts : List (List Char × Char)} {text last : List Char}
    {arguments : List (Value α)} (hplain : Plain options parts arguments)
    (hcut : Cut text parts last) :
    ∀ p ∈ parts.zip arguments, Settled (p.1.1 ++ (supply options p.1.2 p.2).toList) := by
  intro p hp
  obtain ⟨hlast, hsupply⟩ := hplain p hp
  have hbefore : ¬ HasToken p.1.1 := hcut.not_hasToken p.1 (List.of_mem_zip hp).1
  exact (settled_of_not_hasToken hbefore hlast).append (settled_of_notMem hsupply)

/-- In such pieces, only the text before the token can hold doubled percent signs. -/
theorem Plain.collapse_filled {parts : List (List Char × Char)} {arguments : List (Value α)}
    (hplain : Plain options parts arguments) (rest : List Char) :
    collapse (filled options parts arguments ++ rest) =
      ((parts.zip arguments).flatMap fun p =>
        collapse p.1.1 ++ (supply options p.1.2 p.2).toList) ++ collapse rest := by
  have hlast : ∀ p ∈ parts.zip arguments,
      (p.1.1 ++ (supply options p.1.2 p.2).toList).getLast? ≠ some '%' := fun p hp =>
    getLast?_append_ne (hplain p hp).1 fun hpercent =>
      (hplain p hp).2 (List.mem_of_getLast? hpercent)
  have hpiece : ∀ p ∈ parts.zip arguments,
      collapse (p.1.1 ++ (supply options p.1.2 p.2).toList) =
        collapse p.1.1 ++ (supply options p.1.2 p.2).toList := fun p hp => by
    rw [collapse_append (hplain p hp).1, collapse_of_notMem (hplain p hp).2]
  rw [filled, collapse_flatMap hlast, List.flatMap_congr hpiece]

/-- A template whose texts before tokens do not end in a percent sign, with arguments that
supply none, gives its texts and what the arguments supply in turn, doubled percent signs within
the texts made single ones; tokens without an argument stay.  Arguments without a token do
nothing, and bytes are replaced between characters only. -/
theorem format_of_cut (options : CssOptions) (template : Value α) (arguments : List (Value α))
    {parts : List (List Char × Char)} {last : List Char}
    (hcut : Cut template.rawText.toList parts last)
    (hplain : Plain options parts arguments) :
    format options template arguments = .string (String.ofList
      (((parts.zip arguments).flatMap fun p =>
          collapse p.1.1 ++ (supply options p.1.2 p.2).toList) ++
        collapse (joined (parts.drop arguments.length) last))) ∧
    (∀ surplus, parts.length ≤ arguments.length →
      format options template (arguments ++ surplus) = format options template arguments) ∧
    (∀ text place, tokenPlace? (bytes text) = some place → ∃ before letter after,
      splitToken? text = some (before, letter, after) ∧
      text = before ++ ['%', letter] ++ after ∧ (bytes before).length = place ∧
      (bytes (before ++ ['%', letter])).length = place + 2) ∧
    arguments.foldl (substituteBytes options) (bytes template.rawText.toList) =
      bytes (arguments.foldl (substitute options) template.rawText.toList) := by
  have hformat (all : List (Value α)) (hzip : parts.zip all = parts.zip arguments) :
      format options template all = .string (String.ofList
        (((parts.zip arguments).flatMap fun p =>
            collapse p.1.1 ++ (supply options p.1.2 p.2).toList) ++
          collapse (joined (parts.drop all.length) last))) := by
    have hsettled : ∀ p ∈ parts.zip all.dropLast,
        Settled (p.1.1 ++ (supply options p.1.2 p.2).toList) := fun p hp =>
      hplain.settled hcut p (hzip ▸ mem_zip_of_mem_zip_dropLast hp)
    have hcollapse := Plain.collapse_filled (show Plain options parts all by rwa [Plain, hzip])
    rw [format, fill, foldl_substitute_of_cut hcut hsettled, hcollapse, hzip]
  refine ⟨hformat arguments rfl, fun surplus henough => ?_, fun text place h =>
    exists_of_tokenPlace?_bytes h, foldl_substituteBytes _ arguments⟩
  have hzip := zip_append_of_length_le henough surplus
  rw [hformat _ hzip, hformat arguments rfl, List.drop_eq_nil_of_le henough,
    List.drop_eq_nil_of_le (henough.trans (by simp))]

end

/-- An accented template with five tokens.  A string and a dimension in CSS keep their quotes and
unit, as raw text they do not, and a capital letter asks for an encoding.  The doubled percent sign
becomes a single one, and a sixth argument does nothing. -/
theorem format_of_cut_accented :
    let template : Value Rat := .string "é%s %d 5%% %A %d (%s)!"
    let length : Value Rat := .dimension ⟨3 / 2, "px"⟩
    let arguments : List (Value Rat) :=
      [.keyword "ü", .string "q", .anonymous "a b", length, length]
    Cut "é%s %d 5%% %A %d (%s)!".toList
      [("é".toList, 's'), (" ".toList, 'd'), (" 5%% ".toList, 'A'), (" ".toList, 'd'),
        (" (".toList, 's')] ")!".toList ∧
    format {} template arguments = .string "éü \"q\" 5% a+b 1.5px (1.5)!" ∧
    format {} template (arguments ++ [.keyword "c"]) = format {} template arguments := by
  intro template length arguments
  have hnone (text : String) (h : splitToken? text.toList = none) : ¬ HasToken text.toList :=
    not_hasToken_iff.2 h
  have hcut : Cut "é%s %d 5%% %A %d (%s)!".toList
      [("é".toList, 's'), (" ".toList, 'd'), (" 5%% ".toList, 'A'), (" ".toList, 'd'),
        (" (".toList, 's')] ")!".toList :=
    .token (hnone "é" rfl) rfl <| .token (hnone " " rfl) rfl <| .token (hnone " 5%% " rfl) rfl <|
      .token (hnone " " rfl) rfl <| .token (hnone " (" rfl) rfl <| .last (hnone ")!" rfl)
  obtain ⟨hformat, hsurplus, -⟩ := format_of_cut {} template arguments hcut
    (by unfold Plain; decide +kernel)
  refine ⟨hcut, hformat.trans ?_, hsurplus [.keyword "c"] (by decide)⟩
  decide +kernel

end StyleFunctions.Template
