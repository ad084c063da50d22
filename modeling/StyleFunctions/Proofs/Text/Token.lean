import Mathlib.Tactic
import StyleFunctions.Text.Template

/-!
# Tokens of templates

A template is cut at its tokens, from left to right (`Cut`), and arguments fill them one by one.

* `splitToken?_append` — a text without a token of its own stays before the first token.
* `Settled` — a text in which no token begins, whatever follows it.  Settled texts are closed
  under `++`, and a substitution passes over them (`Settled.foldl_substitute`).
* `foldl_substitute_of_cut` — the run over all arguments, by induction on the cut.
-/

namespace StyleFunctions.Template

/-! ## Tokens -/

/-- A token stands in a text. -/
def HasToken (text : List Char) : Prop :=
  ∃ before letter after, text = before ++ '%' :: letter :: after ∧ isTokenLetter letter = true

/-- A text begins with a token. -/
def StartsToken : List Char → Prop
  | c :: letter :: _ => c = '%' ∧ isTokenLetter letter = true
  | _ => False

@[simp] theorem startsToken_cons_cons {c letter : Char} {rest : List Char} :
    StartsToken (c :: letter :: rest) ↔ c = '%' ∧ isTokenLetter letter = true := Iff.rfl

/-- The letters of tokens. -/
theorem isTokenLetter_iff {c : Char} :
    isTokenLetter c = true ↔ c ∈ ['s', 'd', 'a', 'S', 'D', 'A'] := by
  refine ⟨fun h => ?_, fun h => by fin_cases h <;> decide⟩
  have hlower : c.toLower ∈ ['s', 'd', 'a'] := by simpa [isTokenLetter] using h
  by_cases hupper : c.val ≥ 'A'.val ∧ c.val ≤ 'Z'.val
  · have hle : c.toNat ≤ 90 := hupper.2
    have hval : c.toLower.toNat = c.toNat + 32 := by
      have hsum : c.toLower.toNat = (c.val + 32).toNat := congrArg Char.toNat (dif_pos hupper)
      have hlt : c.val.toNat + 32 < 2 ^ 32 := by
        change c.toNat + 32 < 2 ^ 32
        omega
      exact hsum.trans ((UInt32.toNat_add _ _).trans (Nat.mod_eq_of_lt hlt))
    have hnat : c.toNat = c.toLower.toNat - 32 := by omega
    rw [← Char.ofNat_toNat c, hnat]
    generalize c.toLower = d at hlower
    fin_cases hlower <;> decide
  · have hsame : c.toLower = c := dif_neg hupper
    rw [hsame] at hlower
    exact List.mem_append_left ['S', 'D', 'A'] hlower

theorem isTokenLetter_percent : isTokenLetter '%' = false := by decide

theorem hasToken_cons_iff {c : Char} {text : List Char} :
    HasToken (c :: text) ↔ StartsToken (c :: text) ∨ HasToken text := by
  constructor
  · rintro ⟨before, letter, after, htext, hletter⟩
    cases before with
    | nil =>
      obtain ⟨rfl, rfl⟩ : c = '%' ∧ text = letter :: after := by simpa using htext
      exact Or.inl ⟨rfl, hletter⟩
    | cons d before =>
      obtain ⟨-, htail⟩ : c = d ∧ text = before ++ '%' :: letter :: after := by simpa using htext
      exact Or.inr ⟨before, letter, after, htail, hletter⟩
  · rintro (hstart | ⟨before, letter, after, rfl, hletter⟩)
    · cases text with
      | nil => exact hstart.elim
      | cons letter after =>
        obtain ⟨rfl, hletter⟩ := hstart
        exact ⟨[], letter, after, rfl, hletter⟩
    · exact ⟨c :: before, letter, after, rfl, hletter⟩

theorem not_hasToken_of_notMem {text : List Char} (h : '%' ∉ text) : ¬ HasToken text := by
  rintro ⟨before, letter, after, rfl, -⟩
  exact h (by simp)

/-! ## The first token -/

/-- The parts of a text around a token, with more text before them. -/
def prepend (before : List Char) (split : List Char × Char × List Char) :
    List Char × Char × List Char :=
  (before ++ split.1, split.2)

theorem splitToken?_token {letter : Char} (h : isTokenLetter letter = true) (after : List Char) :
    splitToken? ('%' :: letter :: after) = some ([], letter, after) := by
  rw [splitToken?, h]
  rfl

theorem splitToken?_cons {c : Char} {text : List Char} (h : ¬ StartsToken (c :: text)) :
    splitToken? (c :: text) = (splitToken? text).map (prepend [c]) := by
  cases text with
  | nil => rfl
  | cons letter after =>
    have hno : (c = '%' && isTokenLetter letter) = false := by
      simpa [StartsToken] using h
    rw [splitToken?, hno]
    rfl

/-- A text without a token of its own stays before the first token, unless it ends in a percent
sign that makes a token with what follows. -/
theorem splitToken?_append {before rest : List Char} (hbefore : ¬ HasToken before)
    (hseam : before.getLast? = some '%' → ∀ letter ∈ rest.head?, isTokenLetter letter = false) :
    splitToken? (before ++ rest) = (splitToken? rest).map (prepend before) := by
  induction before with
  | nil => cases h : splitToken? rest <;> simp [prepend, h]
  | cons c before ih =>
    rw [hasToken_cons_iff, not_or] at hbefore
    have hstart : ¬ StartsToken (c :: (before ++ rest)) := by
      cases before with
      | nil =>
        cases rest with
        | nil => exact id
        | cons letter after =>
          rintro ⟨rfl, hletter⟩
          simp [hseam rfl letter rfl] at hletter
      | cons d before => exact hbefore.1
    have hrest : splitToken? (before ++ rest) = (splitToken? rest).map (prepend before) := by
      refine ih hbefore.2 fun hlast => hseam ?_
      rw [List.getLast?_cons, hlast]
      rfl
    rw [List.cons_append, splitToken?_cons hstart, hrest]
    cases splitToken? rest <;> rfl

/-- A sign that is no letter cannot complete a token, so a text is cut at the first token if it
has none before it. -/
theorem splitToken?_of_not_hasToken {before : List Char} {letter : Char} (after : List Char)
    (hbefore : ¬ HasToken before) (hletter : isTokenLetter letter = true) :
    splitToken? (before ++ '%' :: letter :: after) = some (before, letter, after) := by
  have hseam : before.getLast? = some '%' →
      ∀ next ∈ ('%' :: letter :: after).head?, isTokenLetter next = false :=
    fun _ => by simp [isTokenLetter_percent]
  rw [splitToken?_append hbefore hseam, splitToken?_token hletter]
  simp [prepend]

theorem splitToken?_eq_none_of_not_hasToken {text : List Char} (h : ¬ HasToken text) :
    splitToken? text = none := by
  have hsplit : splitToken? (text ++ []) = (splitToken? []).map (prepend text) :=
    splitToken?_append h (by simp)
  rwa [List.append_nil] at hsplit

theorem splitToken?_eq_some {text before after : List Char} {letter : Char}
    (h : splitToken? text = some (before, letter, after)) :
    text = before ++ '%' :: letter :: after ∧ isTokenLetter letter = true ∧ ¬ HasToken before := by
  induction text generalizing before with
  | nil => cases h
  | cons c text ih =>
    by_cases hstart : StartsToken (c :: text)
    · cases text with
      | nil => exact hstart.elim
      | cons l rest =>
        obtain ⟨rfl, hl⟩ := hstart
        rw [splitToken?_token hl] at h
        cases h
        exact ⟨rfl, hl, not_hasToken_of_notMem (by simp)⟩
    · rw [splitToken?_cons hstart, Option.map_eq_some_iff] at h
      obtain ⟨⟨before', letter', after'⟩, hsplit, heq⟩ := h
      cases heq
      obtain ⟨rfl, hletter, hbefore⟩ := ih hsplit
      refine ⟨rfl, hletter, ?_⟩
      change ¬ HasToken (c :: before')
      rw [hasToken_cons_iff, not_or]
      refine ⟨fun hfront => hstart ?_, hbefore⟩
      cases before' with
      | nil => exact hfront.elim
      | cons d before' => exact hfront

theorem not_hasToken_iff {text : List Char} : ¬ HasToken text ↔ splitToken? text = none := by
  refine ⟨splitToken?_eq_none_of_not_hasToken, ?_⟩
  induction text with
  | nil => exact fun _ => not_hasToken_of_notMem (by simp)
  | cons c text ih =>
    intro h
    have hstart : ¬ StartsToken (c :: text) := by
      intro hstart
      cases text with
      | nil => exact hstart
      | cons letter after =>
        obtain ⟨rfl, hletter⟩ := hstart
        rw [splitToken?_token hletter] at h
        cases h
    rw [splitToken?_cons hstart, Option.map_eq_none_iff] at h
    rw [hasToken_cons_iff, not_or]
    exact ⟨hstart, ih h⟩

/-! ## Settled texts -/

/-- A text in which no token begins, whatever follows it. -/
def Settled (text : List Char) : Prop :=
  ∀ rest, splitToken? (text ++ rest) = (splitToken? rest).map (prepend text)

theorem settled_of_not_hasToken {text : List Char} (h : ¬ HasToken text)
    (hlast : text.getLast? ≠ some '%') : Settled text :=
  fun _ => splitToken?_append h fun hpercent => absurd hpercent hlast

theorem settled_of_notMem {text : List Char} (h : '%' ∉ text) : Settled text :=
  settled_of_not_hasToken (not_hasToken_of_notMem h) fun hlast => h (List.mem_of_getLast? hlast)

theorem Settled.append {first second : List Char} (hfirst : Settled first)
    (hsecond : Settled second) : Settled (first ++ second) := by
  intro rest
  rw [List.append_assoc, hfirst, hsecond]
  cases splitToken? rest <;> simp [prepend]

section

variable {α : Type} [Scalar α] {options : CssOptions}

theorem substitute_of_not_hasToken {text : List Char} (h : ¬ HasToken text) (argument : Value α) :
    substitute options text argument = text := by
  rw [substitute, splitToken?_eq_none_of_not_hasToken h]

theorem substitute_token {before : List Char} {letter : Char} (after : List Char)
    (hbefore : ¬ HasToken before) (hletter : isTokenLetter letter = true) (argument : Value α) :
    substitute options (before ++ '%' :: letter :: after) argument =
      before ++ (supply options letter argument).toList ++ after := by
  rw [substitute, splitToken?_of_not_hasToken after hbefore hletter]

theorem foldl_substitute_of_not_hasToken {text : List Char} (h : ¬ HasToken text)
    (arguments : List (Value α)) : arguments.foldl (substitute options) text = text := by
  induction arguments with
  | nil => rfl
  | cons argument arguments ih => rw [List.foldl_cons, substitute_of_not_hasToken h, ih]

/-- A substitution passes over a settled text. -/
theorem Settled.substitute {text : List Char} (h : Settled text) (rest : List Char)
    (argument : Value α) :
    substitute options (text ++ rest) argument = text ++ substitute options rest argument := by
  rw [Template.substitute, Template.substitute, h]
  cases splitToken? rest <;> simp [prepend]

/-- So do substitutions one after another. -/
theorem Settled.foldl_substitute {text : List Char} (h : Settled text) (rest : List Char)
    (arguments : List (Value α)) :
    arguments.foldl (Template.substitute options) (text ++ rest) =
      text ++ arguments.foldl (Template.substitute options) rest := by
  induction arguments generalizing rest with
  | nil => rfl
  | cons argument arguments ih => rw [List.foldl_cons, h.substitute, ih, List.foldl_cons]

end

/-! ## Cuts -/

/-- The texts before the successive first tokens of a text, each with the letter of the token,
and the text after the last token. -/
inductive Cut : List Char → List (List Char × Char) → List Char → Prop
  | last {text : List Char} (h : ¬ HasToken text) : Cut text [] text
  | token {before after last : List Char} {letter : Char} {parts : List (List Char × Char)}
      (hbefore : ¬ HasToken before) (hletter : isTokenLetter letter = true)
      (hafter : Cut after parts last) :
      Cut (before ++ '%' :: letter :: after) ((before, letter) :: parts) last

/-- The text that is cut into the given parts. -/
def joined (parts : List (List Char × Char)) (last : List Char) : List Char :=
  parts.flatMap (fun part => part.1 ++ ['%', part.2]) ++ last

theorem Cut.joined_eq {text last : List Char} {parts : List (List Char × Char)}
    (h : Cut text parts last) : joined parts last = text := by
  induction h with
  | last _ => rfl
  | token _ _ _ ih =>
    rw [← ih]
    simp [joined]

theorem Cut.not_hasToken {text last : List Char} {parts : List (List Char × Char)}
    (h : Cut text parts last) : ∀ part ∈ parts, ¬ HasToken part.1 := by
  induction h with
  | last _ => simp
  | token hbefore _ _ ih => exact List.forall_mem_cons.2 ⟨hbefore, ih⟩

section

variable {α : Type} [Scalar α] {options : CssOptions}

/-- The filled parts of a template: the text before each token and what an argument supplies for
it. -/
def filled (options : CssOptions) (parts : List (List Char × Char))
    (arguments : List (Value α)) : List Char :=
  (parts.zip arguments).flatMap fun p => p.1.1 ++ (supply options p.1.2 p.2).toList

theorem mem_zip_of_mem_zip_dropLast {β γ : Type} {first : List β} {second : List γ} {p : β × γ}
    (h : p ∈ first.zip second.dropLast) : p ∈ first.zip second := by
  obtain ⟨i, hi⟩ := List.mem_iff_getElem?.1 h
  rw [List.getElem?_zip_eq_some] at hi
  refine List.mem_iff_getElem?.2 ⟨i, List.getElem?_zip_eq_some.2 ⟨hi.1, ?_⟩⟩
  have := hi.2
  rw [List.getElem?_dropLast] at this
  split at this
  · exact this
  · cases this

theorem zip_append_of_length_le {β γ : Type} {first : List β} {second : List γ}
    (h : first.length ≤ second.length) (more : List γ) :
    first.zip (second ++ more) = first.zip second := by
  have hmore : first.length ≤ (second ++ more).length := h.trans (by simp)
  have htake (all : List γ) (hall : first.length ≤ all.length) :
      first.zip all = first.zip (all.take first.length) := by
    rw [List.zip_eq_zip_take_min, min_eq_left hall, List.take_length]
  rw [htake _ hmore, List.take_append_of_le_length h, ← htake _ h]

/-- Arguments fill the tokens of a template in their order, as long as each one that another
follows is settled with the text before it. -/
theorem foldl_substitute_of_cut {text last : List Char} {parts : List (List Char × Char)}
    (hcut : Cut text parts last) {arguments : List (Value α)}
    (hsettled : ∀ p ∈ parts.zip arguments.dropLast,
      Settled (p.1.1 ++ (supply options p.1.2 p.2).toList)) :
    arguments.foldl (substitute options) text =
      filled options parts arguments ++ joined (parts.drop arguments.length) last := by
  induction hcut generalizing arguments with
  | last h => simp [foldl_substitute_of_not_hasToken h, filled, joined]
  | @token before after last letter parts hbefore hletter hafter ih =>
    match arguments with
    | [] => exact (Cut.token hbefore hletter hafter).joined_eq.symm
    | [argument] =>
      rw [List.foldl_cons, substitute_token after hbefore hletter, List.foldl_nil,
        ← hafter.joined_eq]
      simp [filled]
    | argument :: next :: arguments =>
      have hfirst : Settled (before ++ (supply options letter argument).toList) :=
        hsettled ((before, letter), argument) (by simp)
      have hothers : ∀ p ∈ parts.zip (next :: arguments).dropLast,
          Settled (p.1.1 ++ (supply options p.1.2 p.2).toList) :=
        fun p hp => hsettled p (List.mem_cons_of_mem _ hp)
      rw [List.foldl_cons, substitute_token after hbefore hletter, hfirst.foldl_substitute,
        ih hothers]
      simp [filled]

end

end StyleFunctions.Template
