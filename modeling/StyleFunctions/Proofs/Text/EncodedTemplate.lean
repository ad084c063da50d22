import Mathlib.Tactic
import StyleFunctions.Number.Exact
import StyleFunctions.Proofs.Text.Template

/-!
# Templates with encoded arguments

An argument for a token with a capital letter is encoded, and its text then holds percent signs.
Later substitutions look through that text: an escape whose first digit is `A` or `D` is a token
to them.

* `IsInert` — a byte without such an escape.  Texts of inert bytes are settled
  (`settled_encode`).
* `Tame` — percent signs come with a capital letter or a digit behind them.  Substitutions keep a
  text tame (`Tame.foldl_substitute`), so that every token asks for an encoding and no percent
  sign is doubled.
* `exists_of_foldl_substitute` — a token at the front of a text, once taken, does not come back
  at its old length.
* `format_encoded_iff` — all arguments stand in the text, encoded, exactly if the ones that
  another argument follows are of inert bytes.
-/

namespace StyleFunctions.Template

open UrlEncoding

/-! ## Encoded bytes -/

/-- A byte whose escape is no token: its high half is neither `A` nor `D`. -/
def IsInert (b : UInt8) : Prop := b.toNat / 16 ≠ 10 ∧ b.toNat / 16 ≠ 13

instance : DecidablePred IsInert := fun b =>
  inferInstanceAs (Decidable (b.toNat / 16 ≠ 10 ∧ b.toNat / 16 ≠ 13))

theorem isTokenLetter_hexDigit {n : Nat} (h : n < 16) :
    isTokenLetter (hexDigit n) = true ↔ n = 10 ∨ n = 13 := by
  revert n
  decide

theorem hexDigit_ne_percent {n : Nat} (h : n < 16) : hexDigit n ≠ '%' := by
  revert n
  decide

theorem isUpper_or_isDigit_hexDigit {n : Nat} (h : n < 16) :
    (hexDigit n).isUpper = true ∨ (hexDigit n).isDigit = true := by
  revert n
  decide

theorem isInert_iff {b : UInt8} :
    IsInert b ↔ isTokenLetter (hexDigit (b.toNat / 16)) = false := by
  have hb := b.toNat_lt
  rw [Bool.eq_false_iff, Ne, isTokenLetter_hexDigit (by omega), not_or]
  rfl

/-- Bytes of characters below 128 are inert. -/
theorem isInert_of_mem_utf8Bytes {text : String} (h : ∀ c ∈ text.toList, c.toNat < 128) :
    ∀ b ∈ utf8Bytes text, IsInert b := by
  intro b hb
  obtain ⟨c, hc, hbyte⟩ := List.mem_flatMap.1 hb
  rw [utf8EncodeChar_of_lt (h c hc), List.mem_singleton] at hbyte
  have hlt := h c hc
  have hnat : b.toNat = c.toNat := by
    rw [hbyte, UInt8.toNat_ofNat', Nat.mod_eq_of_lt (by omega)]
  exact ⟨by omega, by omega⟩

/-- A byte is written as one character other than the percent sign, or escaped. -/
theorem encodeByte_eq_or (b : UInt8) :
    (∃ c, c ≠ '%' ∧ form.encodeByte b = [c]) ∨ form.encodeByte b = escape b := by
  rw [Rules.encodeByte]
  split
  · rename_i hself
    refine Or.inl ⟨_, fun hpercent => ?_, rfl⟩
    rw [hpercent, Rules.unambiguous_form.not_isUnreserved_percent] at hself
    cases hself
  · split
    · exact Or.inl ⟨'+', by decide, rfl⟩
    · exact Or.inr rfl

/-- A byte that is not inert is escaped. -/
theorem encodeByte_of_not_isInert {b : UInt8} (h : ¬ IsInert b) : form.encodeByte b = escape b := by
  revert h
  exact forall_byte (P := fun b => ¬ IsInert b → form.encodeByte b = escape b)
    (by decide +kernel) b

theorem settled_percent {c : Char} (hc : c ≠ '%') (hletter : isTokenLetter c = false) :
    Settled ['%', c] := by
  refine settled_of_not_hasToken ?_ (by simpa using hc)
  rw [hasToken_cons_iff, startsToken_cons_cons, not_or]
  exact ⟨by simp [hletter], not_hasToken_of_notMem (by simpa using Ne.symm hc)⟩

theorem settled_encodeByte {b : UInt8} (h : IsInert b) : Settled (form.encodeByte b) := by
  have hb := b.toNat_lt
  rcases encodeByte_eq_or b with ⟨c, hc, hself⟩ | hescape
  · rw [hself]
    exact settled_of_notMem (by simpa using Ne.symm hc)
  · rw [hescape]
    have hhigh : Settled ['%', hexDigit (b.toNat / 16)] :=
      settled_percent (hexDigit_ne_percent (by omega)) (isInert_iff.1 h)
    have hlow : Settled [hexDigit (b.toNat % 16)] :=
      settled_of_notMem (by simpa using Ne.symm (hexDigit_ne_percent (by omega)))
    exact hhigh.append hlow

/-- The text of inert bytes holds no token. -/
theorem settled_encode {bs : List UInt8} (h : ∀ b ∈ bs, IsInert b) : Settled (form.encode bs) := by
  induction bs with
  | nil => exact settled_of_notMem (by simp [Rules.encode])
  | cons b bs ih =>
    rw [List.forall_mem_cons] at h
    exact (settled_encodeByte h.1).append (ih h.2)

/-! ## What follows percent signs -/

/-- Behind each percent sign of a text, the rest of the text has a property. -/
def BehindPercent (P : List Char → Prop) (text : List Char) : Prop :=
  ∀ before after, text = before ++ '%' :: after → P after

namespace BehindPercent

variable {P : List Char → Prop}

theorem of_notMem {text : List Char} (h : '%' ∉ text) : BehindPercent P text := by
  rintro before after rfl
  exact absurd (by simp) h

theorem percent_cons {rest : List Char} (hrest : '%' ∉ rest) (h : P rest) :
    BehindPercent P ('%' :: rest) := by
  intro before after heq
  cases before with
  | nil =>
    obtain rfl : rest = after := List.tail_eq_of_cons_eq heq
    exact h
  | cons c before =>
    have htail : rest = before ++ '%' :: after := List.tail_eq_of_cons_eq heq
    exact absurd (by simp [htail]) hrest

theorem append (hP : ∀ first second, P first → P (first ++ second)) {first second : List Char}
    (hfirst : BehindPercent P first) (hsecond : BehindPercent P second) :
    BehindPercent P (first ++ second) := by
  intro before after h
  rcases List.append_eq_append_iff.1 h with ⟨rest, rfl, hrest⟩ | ⟨rest, rfl, hrest⟩
  · exact hsecond rest after hrest
  · cases rest with
    | nil => exact hsecond [] after hrest.symm
    | cons c rest =>
      obtain ⟨rfl, rfl⟩ : '%' = c ∧ after = rest ++ second := by simpa using hrest
      exact hP _ _ (hfirst before rest rfl)

theorem flatMap (hP : ∀ first second, P first → P (first ++ second)) {β : Type} {pieces : List β}
    {f : β → List Char} (h : ∀ p ∈ pieces, BehindPercent P (f p)) :
    BehindPercent P (pieces.flatMap f) := by
  induction pieces with
  | nil => exact of_notMem (by simp)
  | cons p pieces ih =>
    rw [List.forall_mem_cons] at h
    exact append hP h.1 (ih h.2)

theorem of_append_right (first : List Char) {second : List Char}
    (h : BehindPercent P (first ++ second)) :
    BehindPercent P second := by
  rintro before after rfl
  exact h (first ++ before) after (by simp)

end BehindPercent

/-- A text begins with a capital letter or a digit. -/
def StartsTame : List Char → Prop
  | [] => False
  | c :: _ => c.isUpper = true ∨ c.isDigit = true

/-- Each percent sign of a text is followed by a capital letter or a digit. -/
def Tame : List Char → Prop := BehindPercent StartsTame

/-- Each percent sign of a text is followed by two more characters. -/
def Escaped : List Char → Prop := BehindPercent fun after => 2 ≤ after.length

theorem StartsTame.append (first second : List Char) (h : StartsTame first) :
    StartsTame (first ++ second) := by
  cases first with
  | nil => exact h.elim
  | cons c first => exact h

theorem two_le_append (first second : List Char) (h : 2 ≤ first.length) :
    2 ≤ (first ++ second).length := by
  rw [List.length_append]
  omega

theorem behindPercent_encode {P : List Char → Prop}
    (hP : ∀ first second, P first → P (first ++ second))
    (hescape : ∀ b : UInt8, P [hexDigit (b.toNat / 16), hexDigit (b.toNat % 16)])
    (bs : List UInt8) : BehindPercent P (form.encode bs) := by
  refine BehindPercent.flatMap hP fun b _ => ?_
  have hb := b.toNat_lt
  rcases encodeByte_eq_or b with ⟨c, hc, hself⟩ | hescaped
  · rw [hself]
    exact .of_notMem (by simpa using Ne.symm hc)
  · rw [hescaped]
    have hdigits : '%' ∉ [hexDigit (b.toNat / 16), hexDigit (b.toNat % 16)] := by
      simp [Ne.symm (hexDigit_ne_percent (show b.toNat / 16 < 16 by omega)),
        Ne.symm (hexDigit_ne_percent (show b.toNat % 16 < 16 by omega))]
    exact .percent_cons hdigits (hescape b)

theorem startsTame_escape (b : UInt8) :
    StartsTame [hexDigit (b.toNat / 16), hexDigit (b.toNat % 16)] := by
  have hb := b.toNat_lt
  exact isUpper_or_isDigit_hexDigit (by omega)

theorem tame_encode (bs : List UInt8) : Tame (form.encode bs) :=
  behindPercent_encode StartsTame.append startsTame_escape bs

theorem escaped_encode (bs : List UInt8) : Escaped (form.encode bs) :=
  behindPercent_encode two_le_append (fun _ => le_rfl) bs

theorem StartsTame.ne_percent {c : Char} {text : List Char} (h : StartsTame (c :: text)) :
    c ≠ '%' := by
  rintro rfl
  rcases h with h | h <;> contradiction

/-- In a tame text the letter of a token is a capital one. -/
theorem StartsTame.isUpper {c : Char} {text : List Char} (h : StartsTame (c :: text))
    (hletter : isTokenLetter c = true) : c.isUpper = true := by
  have hmem := isTokenLetter_iff.1 hletter
  refine h.resolve_right fun hdigit => ?_
  fin_cases hmem <;> contradiction

/-- A tame text has no doubled percent sign. -/
theorem Tame.collapse_eq {text : List Char} (h : Tame text) : collapse text = text := by
  induction text using collapse.induct with
  | case1 => rfl
  | case2 c => rfl
  | case3 c d rest hdouble ih =>
    obtain ⟨rfl, rfl⟩ : c = '%' ∧ d = '%' := by simpa using hdouble
    exact absurd rfl (h [] _ rfl).ne_percent
  | case4 c d rest hsingle ih =>
    rw [collapse, if_neg hsingle, ih (BehindPercent.of_append_right [c] h)]

/-! ## Arguments -/

section

variable {α : Type} [Scalar α] {options : CssOptions}

/-- The text of an argument that is encoded for a token. -/
def shown (options : CssOptions) (letter : Char) (argument : Value α) : String :=
  if letter.toLower = 's' then argument.rawText else argument.css options

/-- A template with the encoded arguments in the places of its tokens. -/
def encodedText (options : CssOptions) (parts : List (List Char × Char)) (last : List Char)
    (arguments : List (Value α)) : String :=
  String.ofList (((parts.zip arguments).flatMap fun p =>
    p.1.1 ++ (encodeForm (shown options p.1.2 p.2)).toList) ++ last)

theorem supply_of_isUpper {letter : Char} (h : letter.isUpper = true) (argument : Value α) :
    supply options letter argument = encodeForm (shown options letter argument) := by
  rw [supply, if_pos h]
  rfl

theorem toList_supply_of_isUpper {letter : Char} (h : letter.isUpper = true)
    (argument : Value α) : (supply options letter argument).toList =
      form.encode (utf8Bytes (shown options letter argument)) := by
  rw [supply_of_isUpper h, encodeForm, String.toList_ofList]

/-- A substitution keeps a text tame. -/
theorem Tame.substitute {text : List Char} (h : Tame text) (argument : Value α) :
    Tame (substitute options text argument) := by
  rw [Template.substitute]
  cases hsplit : splitToken? text with
  | none => exact h
  | some split =>
    obtain ⟨before, letter, after⟩ := split
    obtain ⟨rfl, hletter, -⟩ := splitToken?_eq_some hsplit
    have hupper : letter.isUpper = true := (h before _ rfl).isUpper hletter
    have hbefore : Tame before := by
      rintro first second rfl
      have hsecond := h first (second ++ '%' :: letter :: after) (by simp)
      cases second with
      | nil => exact absurd rfl hsecond.ne_percent
      | cons c second => exact hsecond
    have hafter : Tame after :=
      BehindPercent.of_append_right ['%', letter] (BehindPercent.of_append_right before h)
    refine (hbefore.append StartsTame.append ?_).append StartsTame.append hafter
    rw [toList_supply_of_isUpper hupper]
    exact tame_encode _

theorem Tame.foldl_substitute {text : List Char} (h : Tame text) (arguments : List (Value α)) :
    Tame (arguments.foldl (Template.substitute options) text) := by
  induction arguments generalizing text with
  | nil => exact h
  | cons argument arguments ih => exact ih (h.substitute argument)

/-! ## Tokens among escapes -/

/-- A character that is no percent sign stays at the front of a text. -/
theorem foldl_substitute_cons {c : Char} (hc : c ≠ '%') (text : List Char)
    (arguments : List (Value α)) :
    arguments.foldl (substitute options) (c :: text) =
      c :: arguments.foldl (substitute options) text :=
  (settled_of_notMem (by simpa using Ne.symm hc) : Settled [c]).foldl_substitute text arguments

/-- An argument takes the token at the front of a text, or an escape at the front of its own text
does so next.  If a token stands at the front in the end, the rest of the text is as it was, and
what stands before it is longer than the first token. -/
theorem exists_of_foldl_substitute (arguments : List (Value α)) {c d h : Char}
    {tail rest : List Char} (hupper : c.isUpper = true) (htoken : isTokenLetter c = true)
    (hd : d ≠ '%') (hh : isTokenLetter h = true)
    (hrun : arguments.foldl (substitute options) ('%' :: c :: d :: tail) = '%' :: h :: rest) :
    ∃ front, '%' :: h :: rest = front ++ d :: tail ∧ 2 ≤ front.length ∧
      (arguments ≠ [] → 3 ≤ front.length) := by
  induction arguments generalizing c d tail with
  | nil => exact ⟨['%', c], hrun.symm, le_rfl, fun hne => absurd rfl hne⟩
  | cons argument arguments ih =>
    have hstep : substitute options ('%' :: c :: d :: tail) argument =
        form.encode (utf8Bytes (shown options c argument)) ++ d :: tail := by
      have hfront : ¬ HasToken [] := not_hasToken_of_notMem (by simp)
      rw [← toList_supply_of_isUpper hupper]
      exact substitute_token (d :: tail) hfront htoken argument
    rw [List.foldl_cons, hstep] at hrun
    generalize utf8Bytes (shown options c argument) = inserted at hrun
    cases inserted with
    | nil =>
      -- The character behind the token has come to the front, where it stays.
      have hsame := (foldl_substitute_cons hd tail arguments).symm.trans hrun
      exact absurd (List.head_eq_of_cons_eq hsame) hd
    | cons b bs =>
      have hsplit : form.encode (b :: bs) ++ d :: tail =
          form.encodeByte b ++ (form.encode bs ++ d :: tail) := List.append_assoc _ _ _
      rw [hsplit] at hrun
      rcases encodeByte_eq_or b with ⟨first, hfirst, hself⟩ | hescape
      · rw [hself] at hrun
        have hsame := (foldl_substitute_cons hfirst _ arguments).symm.trans hrun
        exact absurd (List.head_eq_of_cons_eq hsame) hfirst
      · rw [hescape] at hrun
        have hb := b.toNat_lt
        have hhigh : hexDigit (b.toNat / 16) ≠ '%' := hexDigit_ne_percent (by omega)
        by_cases hagain : isTokenLetter (hexDigit (b.toNat / 16)) = true
        · obtain ⟨front, hfront, htwo, -⟩ := ih
            ((startsTame_escape b).isUpper hagain) hagain (hexDigit_ne_percent (by omega)) hrun
          have hthree : 3 ≤ (front ++ hexDigit (b.toNat % 16) :: form.encode bs).length := by
            rw [List.length_append, List.length_cons]
            omega
          exact ⟨_, by simpa using hfront, by omega, fun _ => hthree⟩
        · have hsettled := settled_percent hhigh (Bool.eq_false_iff.2 hagain)
          have hsame := (hsettled.foldl_substitute _ arguments).symm.trans hrun
          have hletter : hexDigit (b.toNat / 16) = h :=
            List.head_eq_of_cons_eq (List.tail_eq_of_cons_eq hsame)
          exact absurd (hletter ▸ hh) hagain

/-! ## Templates of capital tokens -/

/-- The texts between the tokens have no percent sign, and the tokens ask for an encoding. -/
def AsksEncoding (parts : List (List Char × Char)) : Prop :=
  ∀ part ∈ parts, '%' ∉ part.1 ∧ part.2.isUpper = true

theorem AsksEncoding.tame {text last : List Char} {parts : List (List Char × Char)}
    (hcut : Cut text parts last) (hparts : AsksEncoding parts) (hlast : '%' ∉ last) :
    Tame text := by
  induction hcut with
  | last _ => exact .of_notMem hlast
  | @token before after last letter parts _ _ _ ih =>
    obtain ⟨⟨hbefore, hupper⟩, hothers⟩ := List.forall_mem_cons.1 hparts
    have hletter : '%' ≠ letter := by
      rintro rfl
      contradiction
    have htoken : Tame ['%', letter] := .percent_cons (by simpa using hletter) (Or.inl hupper)
    have hfront : Tame (before ++ ['%', letter]) :=
      .append StartsTame.append (.of_notMem hbefore) htoken
    have hwhole := hfront.append StartsTame.append (ih hothers hlast)
    rwa [List.append_assoc] at hwhole

theorem AsksEncoding.escaped_filled {parts : List (List Char × Char)} (hparts : AsksEncoding parts)
    (arguments : List (Value α)) : Escaped (filled options parts arguments) := by
  refine .flatMap two_le_append fun p hp => ?_
  obtain ⟨hbefore, hupper⟩ := hparts p.1 (List.of_mem_zip hp).1
  refine .append two_le_append (.of_notMem hbefore) ?_
  rw [toList_supply_of_isUpper hupper]
  exact escaped_encode _

/-- An encoded argument that other arguments leave alone is of inert bytes. -/
theorem AsksEncoding.isInert_of_foldl_substitute {after last : List Char}
    {parts : List (List Char × Char)} (hparts : AsksEncoding parts) (hafter : Cut after parts last)
    {arguments : List (Value α)} (harguments : arguments ≠ []) {bs : List UInt8}
    (hrun : arguments.foldl (substitute options) (form.encode bs ++ after) =
      form.encode bs ++ (filled options parts arguments ++ last)) : ∀ b ∈ bs, IsInert b := by
  induction bs with
  | nil => simp
  | cons b bs ih =>
    have hsplit (text : List Char) : form.encode (b :: bs) ++ text =
        form.encodeByte b ++ (form.encode bs ++ text) := List.append_assoc _ _ _
    rw [hsplit, hsplit] at hrun
    by_cases hinert : IsInert b
    · rw [(settled_encodeByte hinert).foldl_substitute] at hrun
      exact List.forall_mem_cons.2 ⟨hinert, ih (List.append_cancel_left hrun)⟩
    · exfalso
      have hb := b.toNat_lt
      have htoken : isTokenLetter (hexDigit (b.toNat / 16)) = true := by
        rwa [isInert_iff, Bool.not_eq_false] at hinert
      have hescape := encodeByte_of_not_isInert hinert
      rw [hescape] at hrun
      obtain ⟨front, hfront, -, hthree⟩ := exists_of_foldl_substitute arguments
        ((startsTame_escape b).isUpper htoken) htoken (hexDigit_ne_percent (by omega)) htoken hrun
      have hjoint : '%' :: hexDigit (b.toNat / 16) :: hexDigit (b.toNat % 16) ::
          (form.encode bs ++ (filled options parts arguments ++ last)) =
            front ++ hexDigit (b.toNat % 16) :: (form.encode bs ++ after) := hfront
      rcases List.eq_nil_or_concat' parts with rfl | ⟨parts, part, rfl⟩
      · -- No token follows the argument: too much stands before the second digit of the escape.
        obtain rfl : after = last := by
          cases hafter
          rfl
        have hlength := congrArg List.length hjoint
        have := hthree harguments
        simp only [filled, List.zip_nil_left, List.flatMap_nil, List.nil_append, List.length_cons,
          List.length_append] at hlength
        omega
      · -- The last token of the template is still there, and it is no escape.
        have hjoined : after = joined parts part.1 ++ '%' :: part.2 :: last := by
          rw [← hafter.joined_eq]
          simp [joined]
        have hcancel : form.encode (b :: bs) ++ filled options (parts ++ [part]) arguments =
            (front ++ hexDigit (b.toNat % 16) :: (form.encode bs ++ joined parts part.1)) ++
              '%' :: [part.2] := by
          refine (List.append_left_inj last).1 ?_
          rw [hjoined] at hjoint
          rw [hsplit, hescape]
          simpa [escape] using hjoint
        have htwo := (escaped_encode (b :: bs)).append two_le_append
          (hparts.escaped_filled arguments) _ _ hcancel
        contradiction

/-- Arguments that fill a template and stand there encoded are of inert bytes if another one
follows them. -/
theorem AsksEncoding.forall_isInert {text last : List Char} {parts : List (List Char × Char)}
    (hparts : AsksEncoding parts) (hcut : Cut text parts last) {arguments : List (Value α)}
    (hrun : arguments.foldl (substitute options) text = filled options parts arguments ++ last) :
    ∀ p ∈ parts.zip arguments.dropLast, ∀ b ∈ utf8Bytes (shown options p.1.2 p.2), IsInert b := by
  induction hcut generalizing arguments with
  | last _ => simp
  | @token before after last letter parts hbefore hletter hafter ih =>
    obtain ⟨⟨hpercent, hupper⟩, hothers⟩ := List.forall_mem_cons.1 hparts
    match arguments with
    | [] => simp
    | [argument] => simp
    | argument :: next :: arguments =>
      have hfilled : filled options ((before, letter) :: parts) (argument :: next :: arguments) =
          before ++ (form.encode (utf8Bytes (shown options letter argument)) ++
            filled options parts (next :: arguments)) := by
        rw [← toList_supply_of_isUpper hupper]
        exact List.append_assoc _ _ _
      rw [List.foldl_cons, substitute_token after hbefore hletter, List.append_assoc,
        (settled_of_notMem hpercent).foldl_substitute, hfilled, List.append_assoc,
        toList_supply_of_isUpper hupper, List.append_assoc] at hrun
      have hrest := List.append_cancel_left hrun
      have hfirst : ∀ b ∈ utf8Bytes (shown options letter argument), IsInert b :=
        isInert_of_foldl_substitute hothers hafter (by simp) hrest
      rw [(settled_encode hfirst).foldl_substitute] at hrest
      exact List.forall_mem_cons.2 ⟨hfirst, ih hothers (List.append_cancel_left hrest)⟩

theorem AsksEncoding.encodedText_eq {parts : List (List Char × Char)} (hparts : AsksEncoding parts)
    (last : List Char) (arguments : List (Value α)) :
    encodedText options parts last arguments =
      String.ofList (filled options parts arguments ++ last) := by
  have hpieces : ((parts.zip arguments).flatMap fun p =>
      p.1.1 ++ (encodeForm (shown options p.1.2 p.2)).toList) = filled options parts arguments := by
    refine List.flatMap_congr fun p hp => ?_
    rw [supply_of_isUpper (hparts p.1 (List.of_mem_zip hp).1).2]
  rw [encodedText, hpieces]

/-- With enough arguments for its tokens, a template whose tokens all ask for an encoding and
whose other texts have no percent sign gives its texts with the encoded arguments between them,
exactly if the arguments that another one follows are of inert bytes.  Arguments of characters
below 128 are. -/
theorem format_encoded_iff (options : CssOptions) (template : Value α) (arguments : List (Value α))
    {parts : List (List Char × Char)} {last : List Char}
    (hcut : Cut template.rawText.toList parts last) (hparts : AsksEncoding parts)
    (hlast : '%' ∉ last) (henough : parts.length ≤ arguments.length) :
    (format options template arguments = .string (encodedText options parts last arguments) ↔
      ∀ p ∈ parts.zip arguments.dropLast,
        ∀ b ∈ utf8Bytes (shown options p.1.2 p.2), IsInert b) ∧
    ((∀ p ∈ parts.zip arguments, ∀ c ∈ (shown options p.1.2 p.2).toList, c.toNat < 128) →
      format options template arguments = .string (encodedText options parts last arguments)) := by
  have hformat : format options template arguments = .string (String.ofList
      (arguments.foldl (substitute options) template.rawText.toList)) := by
    have htame : Tame (arguments.foldl (substitute options) template.rawText.toList) :=
      (hparts.tame hcut hlast).foldl_substitute arguments
    rw [format, fill, htame.collapse_eq]
  have hiff :
      format options template arguments = .string (encodedText options parts last arguments) ↔
      ∀ p ∈ parts.zip arguments.dropLast,
        ∀ b ∈ utf8Bytes (shown options p.1.2 p.2), IsInert b := by
    rw [hformat, hparts.encodedText_eq]
    constructor
    · intro h
      have hrun := String.ofList_injective (Quoted.mk.inj (Value.quoted.inj h)).2
      exact hparts.forall_isInert hcut hrun
    · intro hinert
      have hsettled : ∀ p ∈ parts.zip arguments.dropLast,
          Settled (p.1.1 ++ (supply options p.1.2 p.2).toList) := by
        intro p hp
        obtain ⟨hbefore, hupper⟩ := hparts p.1 (List.of_mem_zip hp).1
        rw [toList_supply_of_isUpper hupper]
        exact (settled_of_notMem hbefore).append (settled_encode (hinert p hp))
      rw [foldl_substitute_of_cut hcut hsettled, List.drop_eq_nil_of_le henough]
      rfl
  refine ⟨hiff, fun hascii => hiff.2 fun p hp => ?_⟩
  exact isInert_of_mem_utf8Bytes (hascii p (mem_zip_of_mem_zip_dropLast hp))

end

/-- Of two arguments the last one may be of any bytes, the first one is of inert bytes. -/
theorem format_encoded_iff_query :
    Cut "q=%S&r=%D".toList [("q=".toList, 'S'), ("&r=".toList, 'D')] [] ∧
    AsksEncoding [("q=".toList, 'S'), ("&r=".toList, 'D')] ∧
    format {} (.string "q=%S&r=%D" : Value Rat) [.keyword "a b", .keyword "é"] =
      .string "q=a+b&r=%C3%A9" ∧
    format {} (.string "q=%S&r=%D" : Value Rat) [.keyword "a b", .keyword "c"] =
      .string "q=a+b&r=c" := by
  have hfirst : ¬ HasToken "q=".toList := not_hasToken_iff.2 rfl
  have hsecond : ¬ HasToken "&r=".toList := not_hasToken_iff.2 rfl
  have hlast : ¬ HasToken [] := not_hasToken_iff.2 rfl
  have hcut : Cut "q=%S&r=%D".toList [("q=".toList, 'S'), ("&r=".toList, 'D')] [] :=
    .token hfirst rfl (.token hsecond rfl (.last hlast))
  have hparts : AsksEncoding [("q=".toList, 'S'), ("&r=".toList, 'D')] := by
    unfold AsksEncoding
    decide
  have hinert := (format_encoded_iff {} (.string "q=%S&r=%D" : Value Rat)
    [.keyword "a b", .keyword "é"] hcut hparts (by decide) le_rfl).1.2 (by decide +kernel)
  have hascii := (format_encoded_iff {} (.string "q=%S&r=%D" : Value Rat)
    [.keyword "a b", .keyword "c"] hcut hparts (by decide) le_rfl).2
    (by simp [shown, Value.rawText, Value.css])
  refine ⟨hcut, hparts, hinert.trans ?_, hascii.trans ?_⟩
  · decide +kernel
  · decide +kernel

/-- An argument that another one follows is overwritten where its bytes are not inert.  Of `%A9`,
the escape of a byte of `é`, the second argument leaves a digit, and the second token stays. -/
theorem format_encoded_overwritten :
    Cut "%S%S".toList [([], 'S'), ([], 'S')] [] ∧ AsksEncoding [([], 'S'), ([], 'S')] ∧
    format {} (.string "%S%S" : Value Rat) [.keyword "é", .keyword "x"] = .string "%C3x9%S" ∧
    format {} (.string "%S%S" : Value Rat) [.keyword "é", .keyword "x"] ≠
      .string (encodedText {} [([], 'S'), ([], 'S')] []
        [(.keyword "é" : Value Rat), .keyword "x"]) := by
  have hempty : ¬ HasToken [] := not_hasToken_iff.2 rfl
  have hcut : Cut "%S%S".toList [([], 'S'), ([], 'S')] [] :=
    .token hempty rfl (.token hempty rfl (.last hempty))
  have hparts : AsksEncoding [([], 'S'), ([], 'S')] := by
    unfold AsksEncoding
    decide
  exact ⟨hcut, hparts, by decide +kernel, by decide +kernel⟩

end StyleFunctions.Template
