import Mathlib.Tactic
import StyleFunctions.Source.Span

/-!
# Positions count characters

The position of an offset is found character by character.  Here it is read off the characters
that start before the offset (`startedBefore`), all at once: their newlines give the line, and
those of them behind every newline the column.

* `Position.Counts.advance` — one character more is counted, in the line or in the column.
* `Position.counts_after` — the counters are exact as long as they have room.
* `Position.precedes_after` — every character more leads further on.
* `Span.position_eq_after` — the position of a span is the one after the characters before it.
* `Span.position_counts` — line and column of a span, and how they grow with its start.
-/

namespace StyleFunctions

/-! ## Starts of characters -/

/-- Characters with the byte at which each of them starts. -/
def charStarts : List Char → (start : Nat) → List (Nat × Char)
  | [], _ => []
  | c :: rest, start => (start, c) :: charStarts rest (start + c.utf8Size)

/-- The characters of a text that start before a byte. -/
def startedBefore (offset : Nat) (source : String) : List (Nat × Char) :=
  (charStarts source.toList 0).filter fun e => e.1 < offset

theorem utf8ByteSize_ofList_cons (c : Char) (rest : List Char) :
    (String.ofList (c :: rest)).utf8ByteSize =
      c.utf8Size + (String.ofList rest).utf8ByteSize := by
  rw [← List.singleton_append, String.ofList_append, String.utf8ByteSize_append,
    ← String.singleton_eq_ofList, String.utf8ByteSize_singleton]

theorem charStarts_append (cs ds : List Char) (start : Nat) :
    charStarts (cs ++ ds) start =
      charStarts cs start ++ charStarts ds (start + (String.ofList cs).utf8ByteSize) := by
  induction cs generalizing start with
  | nil => simp [charStarts]
  | cons c rest ih =>
    rw [List.cons_append, charStarts, charStarts, ih, utf8ByteSize_ofList_cons, List.cons_append,
      Nat.add_assoc]

/-- The characters of a list start within its bytes. -/
theorem start_bounds_of_mem_charStarts {cs : List Char} {start : Nat} {e : Nat × Char}
    (h : e ∈ charStarts cs start) :
    start ≤ e.1 ∧ e.1 < start + (String.ofList cs).utf8ByteSize := by
  induction cs generalizing start with
  | nil => cases h
  | cons c rest ih =>
    have hpos := c.utf8Size_pos
    rw [utf8ByteSize_ofList_cons]
    rw [charStarts, List.mem_cons] at h
    obtain rfl | h := h
    · dsimp only
      omega
    · have hrest := ih h
      omega

/-- Later characters start at later bytes. -/
theorem pairwise_charStarts (cs : List Char) (start : Nat) :
    (charStarts cs start).Pairwise fun e e' => e.1 < e'.1 := by
  induction cs generalizing start with
  | nil => exact List.Pairwise.nil
  | cons c rest ih =>
    rw [charStarts, List.pairwise_cons]
    refine ⟨fun e he => ?_, ih _⟩
    exact Nat.lt_of_lt_of_le (Nat.lt_add_of_pos_right c.utf8Size_pos)
      (start_bounds_of_mem_charStarts he).1

/-- Every character takes a byte at least. -/
theorem length_filter_charStarts_le (offset : Nat) (cs : List Char) (start : Nat) :
    ((charStarts cs start).filter fun e => e.1 < offset).length ≤ offset - start := by
  induction cs generalizing start with
  | nil => exact Nat.zero_le _
  | cons c rest ih =>
    have hrest := ih (start + c.utf8Size)
    have hpos := c.utf8Size_pos
    rw [charStarts, List.filter_cons]
    dsimp only
    split
    next hstart =>
      rw [decide_eq_true_eq] at hstart
      rw [List.length_cons]
      omega
    next => omega

theorem length_startedBefore_le (offset : Nat) (source : String) :
    (startedBefore offset source).length ≤ offset :=
  length_filter_charStarts_le offset source.toList 0

theorem pairwise_startedBefore (offset : Nat) (source : String) :
    (startedBefore offset source).Pairwise fun e e' => e.1 < e'.1 :=
  (pairwise_charStarts source.toList 0).filter _

/-- Behind the first part of a text, the characters of that part have all started. -/
theorem startedBefore_append {offset : Nat} {left : String} (h : left.utf8ByteSize ≤ offset)
    (right : String) : startedBefore offset (left ++ right) =
      charStarts left.toList 0 ++
        (charStarts right.toList left.utf8ByteSize).filter fun e => e.1 < offset := by
  have hleft : (charStarts left.toList 0).filter (fun e => e.1 < offset) =
      charStarts left.toList 0 := by
    refine List.filter_eq_self.2 fun e he => decide_eq_true ?_
    have hbounds := start_bounds_of_mem_charStarts he
    rw [String.ofList_toList] at hbounds
    omega
  rw [startedBefore, String.toList_append, charStarts_append, String.ofList_toList, Nat.zero_add,
    List.filter_append, hleft]

/-- Nothing starts before a byte at which a list of characters begins, or an earlier one. -/
theorem filter_charStarts_eq_nil {offset start : Nat} (h : offset ≤ start) (cs : List Char) :
    (charStarts cs start).filter (fun e => e.1 < offset) = [] := by
  refine List.filter_eq_nil_iff.2 fun e he => ?_
  have hbounds := start_bounds_of_mem_charStarts he
  rw [decide_eq_true_eq]
  omega

/-- At a boundary between characters, those before it have started and no others. -/
theorem startedBefore_boundary (left right : String) :
    startedBefore left.utf8ByteSize (left ++ right) = charStarts left.toList 0 := by
  rw [startedBefore_append (Nat.le_refl _), filter_charStarts_eq_nil (Nat.le_refl _),
    List.append_nil]

/-- Within a character and just behind it, that character is the last one that has started. -/
theorem startedBefore_within {offset : Nat} {left : String} {c : Char}
    (hlow : left.utf8ByteSize < offset) (hhigh : offset ≤ left.utf8ByteSize + c.utf8Size)
    (right : String) : startedBefore offset (left ++ (String.singleton c ++ right)) =
      charStarts left.toList 0 ++ [(left.utf8ByteSize, c)] := by
  rw [startedBefore_append (Nat.le_of_lt hlow), String.toList_append, String.toList_singleton,
    List.singleton_append, charStarts, List.filter_cons_of_pos (by simpa using hlow),
    filter_charStarts_eq_nil hhigh]

namespace Position

/-! ## Counters -/

/-- Both counters can go one further. -/
def HasRoom (p : Position) : Prop := p.line ≠ 0xFFFFFFFF ∧ p.column ≠ 0xFFFFFFFF

/-- The line counts newlines and the column characters behind every newline, both from one. -/
structure Counts (p : Position) (seen : List (Nat × Char)) : Prop where
  line : p.line.toNat = 1 + seen.countP fun e => e.2 = '\n'
  column : p.column.toNat = 1 + seen.countP fun e => ∀ e' ∈ seen, e'.2 = '\n' → e'.1 < e.1

theorem toNat_nextCount {n : UInt32} (h : n ≠ 0xFFFFFFFF) : (nextCount n).toNat = n.toNat + 1 := by
  have hlt : n.toNat + 1 < 2 ^ 32 := by
    have hle := n.toNat_lt
    have hne : n.toNat ≠ 0xFFFFFFFF := fun heq => h (UInt32.toNat_inj.1 heq)
    omega
  rw [nextCount, if_neg h, UInt32.toNat_add]
  exact Nat.mod_eq_of_lt hlt

/-- A position with few characters before it has room. -/
theorem Counts.hasRoom {p : Position} {seen : List (Nat × Char)} (h : p.Counts seen)
    (hfew : seen.length + 1 < 0xFFFFFFFF) : p.HasRoom := by
  have hline := h.line
  have hcolumn := h.column
  have hnewlines := seen.countP_le_length (p := fun e => e.2 = '\n')
  have hbehind := seen.countP_le_length (p := fun e => ∀ e' ∈ seen, e'.2 = '\n' → e'.1 < e.1)
  have hmax : (0xFFFFFFFF : UInt32).toNat = 0xFFFFFFFF := rfl
  constructor
  · intro hfull
    rw [hfull, hmax] at hline
    omega
  · intro hfull
    rw [hfull, hmax] at hcolumn
    omega

/-- One character more is counted: a newline in the line, any other one in the column. -/
theorem Counts.advance {p : Position} {seen : List (Nat × Char)} (h : p.Counts seen)
    (hroom : p.HasRoom) {start : Nat} (hlater : ∀ e ∈ seen, e.1 < start) (c : Char) :
    (p.advance c).Counts (seen ++ [(start, c)]) := by
  by_cases hc : c = '\n'
  · subst hc
    constructor
    · rw [Position.advance, if_pos rfl, toNat_nextCount hroom.1, h.line, List.countP_append]
      rfl
    · -- No character starts behind the new newline.
      have hnone : (seen ++ [(start, '\n')]).countP
          (fun e => ∀ e' ∈ seen ++ [(start, '\n')], e'.2 = '\n' → e'.1 < e.1) = 0 := by
        refine List.countP_eq_zero.2 fun e he => ?_
        rw [decide_eq_true_eq]
        intro hbehind
        have hlast := hbehind (start, '\n') (by simp) rfl
        obtain he | he := List.mem_append.1 he
        · exact absurd (hlater e he) (Nat.lt_asymm hlast)
        · rw [List.mem_singleton.1 he] at hlast
          exact absurd hlast (Nat.lt_irrefl start)
      rw [Position.advance, if_pos rfl, hnone]
      rfl
  · constructor
    · rw [Position.advance, if_neg hc, h.line, List.countP_append,
        List.countP_singleton, if_neg (by simpa using hc), Nat.add_zero]
    · -- The newlines are those of before, so that the same characters stand behind them.
      have hnewlines (e : Nat × Char) :
          (∀ e' ∈ seen ++ [(start, c)], e'.2 = '\n' → e'.1 < e.1) ↔
            ∀ e' ∈ seen, e'.2 = '\n' → e'.1 < e.1 := by
        simp [or_imp, forall_and, hc]
      have hnew : ∀ e' ∈ seen, e'.2 = '\n' → e'.1 < start := fun e' he' _ => hlater e' he'
      simp only [hnewlines]
      rw [Position.advance, if_neg hc, toNat_nextCount hroom.2, h.column, List.countP_append,
        List.countP_singleton, if_pos (decide_eq_true hnew), Nat.add_assoc]

/-! ## Runs over characters -/

/-- The position after characters, from the start of a text on. -/
def after (seen : List (Nat × Char)) : Position := seen.foldl (fun p e => p.advance e.2) origin

theorem after_concat (seen : List (Nat × Char)) (e : Nat × Char) :
    after (seen ++ [e]) = (after seen).advance e.2 := by
  rw [after, List.foldl_append]
  rfl

/-- The counters are exact as long as they have room. -/
theorem counts_after {seen : List (Nat × Char)} (hsorted : seen.Pairwise fun e e' => e.1 < e'.1)
    (hfew : seen.length < 0xFFFFFFFF) : (after seen).Counts seen := by
  induction seen using List.reverseRecOn with
  | nil => exact ⟨rfl, rfl⟩
  | append_singleton seen e ih =>
    rw [List.length_append, List.length_singleton] at hfew
    obtain ⟨hseen, -, hlater⟩ := List.pairwise_append.1 hsorted
    have hcounts := ih hseen (Nat.lt_of_succ_lt hfew)
    rw [after_concat]
    exact hcounts.advance (hcounts.hasRoom hfew)
      (fun e' he' => hlater e' he' e (List.mem_singleton_self e)) e.2

/-- A position before another one, in an earlier line or earlier in the same line. -/
def Precedes (p q : Position) : Prop := p.line < q.line ∨ p.line = q.line ∧ p.column < q.column

theorem Precedes.trans {p q r : Position} (hpq : p.Precedes q) (hqr : q.Precedes r) :
    p.Precedes r := by
  obtain hline | ⟨hline, hcolumn⟩ := hpq
  · obtain hline' | ⟨hline', -⟩ := hqr
    · exact Or.inl (UInt32.lt_trans hline hline')
    · exact Or.inl (hline' ▸ hline)
  · obtain hline' | ⟨hline', hcolumn'⟩ := hqr
    · exact Or.inl (hline ▸ hline')
    · exact Or.inr ⟨hline.trans hline', UInt32.lt_trans hcolumn hcolumn'⟩

theorem HasRoom.precedes_advance {p : Position} (h : p.HasRoom) (c : Char) :
    p.Precedes (p.advance c) := by
  have hnext {n : UInt32} (hn : n ≠ 0xFFFFFFFF) : n < nextCount n := by
    rw [UInt32.lt_iff_toNat_lt, toNat_nextCount hn]
    exact Nat.lt_succ_self _
  rw [advance]
  split
  · exact Or.inl (hnext h.1)
  · exact Or.inr ⟨rfl, hnext h.2⟩

/-- Every character more leads further on. -/
theorem precedes_after {seen more : List (Nat × Char)}
    (hsorted : (seen ++ more).Pairwise fun e e' => e.1 < e'.1)
    (hfew : (seen ++ more).length < 0xFFFFFFFF) (hmore : more ≠ []) :
    (after seen).Precedes (after (seen ++ more)) := by
  induction more using List.reverseRecOn with
  | nil => exact absurd rfl hmore
  | append_singleton more e ih =>
    rw [← List.append_assoc] at hsorted hfew ⊢
    rw [List.length_append, List.length_singleton] at hfew
    have hbefore := (List.pairwise_append.1 hsorted).1
    have hroom := (counts_after hbefore (Nat.lt_of_succ_lt hfew)).hasRoom hfew
    have hlast := hroom.precedes_advance e.2
    rw [after_concat]
    by_cases hnil : more = []
    · subst hnil
      rwa [List.append_nil] at hlast ⊢
    · exact (ih hbefore (Nat.lt_of_succ_lt hfew) hnil).trans hlast

/-- The walk over a text is a run over the characters that start before the offset. -/
theorem walk_eq_foldl (offset : Nat) (cs : List Char) (start : Nat) (p : Position) :
    walk offset cs start p =
      ((charStarts cs start).filter fun e => e.1 < offset).foldl (fun p e => p.advance e.2) p := by
  induction cs generalizing start p with
  | nil => rfl
  | cons c rest ih =>
    rw [walk]
    split
    next hend => rw [filter_charStarts_eq_nil hend, List.foldl_nil]
    next hwithin =>
      rw [charStarts, List.filter_cons_of_pos (by simpa using hwithin), List.foldl_cons, ih]

end Position

/-! ## Spans -/

namespace Span

theorem position_eq_after (s : Span) (source : String) : s.position source =
    Position.after (startedBefore (min s.start.toNat source.utf8ByteSize) source) :=
  Position.walk_eq_foldl _ source.toList 0 Position.origin

/-- A span starts between two characters of a text or at one of its ends. -/
def StartsOnBoundary (s : Span) (source : String) : Prop :=
  (⟨s.start.toNat⟩ : String.Pos.Raw).IsValid source

theorem StartsOnBoundary.exists_append {s : Span} {source : String}
    (h : s.StartsOnBoundary source) :
    ∃ left right, source = left ++ right ∧ s.start.toNat = left.utf8ByteSize := by
  obtain ⟨left, right, hsource, hstart⟩ := String.Pos.Raw.isValid_iff_exists_append.1 h
  exact ⟨left, right, hsource, congrArg String.Pos.Raw.byteIdx hstart⟩

theorem StartsOnBoundary.start_le {s : Span} {source : String} (h : s.StartsOnBoundary source) :
    s.start.toNat ≤ source.utf8ByteSize := by
  obtain ⟨left, right, rfl, hstart⟩ := h.exists_append
  rw [hstart, String.utf8ByteSize_append]
  exact Nat.le_add_right _ _

/-- Between characters, a later start is at a later position. -/
theorem precedes_position {s s' : Span} {source : String} (h : s.StartsOnBoundary source)
    (h' : s'.StartsOnBoundary source) (hlt : s.start < s'.start) (hmax : s'.start < 0xFFFFFFFF) :
    (s.position source).Precedes (s'.position source) := by
  have hend := h'.start_le
  rw [position_eq_after, position_eq_after, Nat.min_eq_left h.start_le, Nat.min_eq_left hend]
  rw [UInt32.lt_iff_toNat_lt] at hlt hmax
  obtain ⟨left, right, rfl, hstart⟩ := h.exists_append
  have hsorted := pairwise_startedBefore s'.start.toNat (left ++ right)
  have hfew := length_startedBefore_le s'.start.toNat (left ++ right)
  rw [hstart] at hlt
  rw [startedBefore_append (Nat.le_of_lt hlt)] at hsorted hfew ⊢
  rw [hstart, startedBefore_boundary]
  refine Position.precedes_after hsorted (Nat.lt_of_le_of_lt hfew hmax) ?_
  -- The character behind the first boundary starts before the second one.
  cases hright : right.toList with
  | nil =>
    rw [String.utf8ByteSize_append, String.toList_eq_nil_iff.1 hright] at hend
    exact absurd hlt (Nat.not_lt.2 hend)
  | cons c rest =>
    rw [charStarts, List.filter_cons_of_pos (by simpa using hlt)]
    exact List.cons_ne_nil _ _

/-- The line of a span counts the newlines among the characters that start before the span, and
its column those characters that start behind every such newline; both are counted from one, and
every character is counted while there is room.  From the end of a text on the position is always
the same, an offset within a character stands for the one just behind it, and between characters
a later start is at a later position. -/
theorem position_counts (source : String) :
    (∀ s : Span, s.start < 0xFFFFFFFF →
      let seen := startedBefore (min s.start.toNat source.utf8ByteSize) source
      (s.position source).line.toNat = 1 + seen.countP (fun e => e.2 = '\n') ∧
      (s.position source).column.toNat =
        1 + seen.countP (fun e => ∀ e' ∈ seen, e'.2 = '\n' → e'.1 < e.1) ∧
      s.position source = Position.after seen ∧
      ∀ done e rest, seen = done ++ e :: rest → (Position.after done).HasRoom) ∧
    (∀ s s' : Span, source.utf8ByteSize ≤ s.start.toNat → source.utf8ByteSize ≤ s'.start.toNat →
      s.position source = s'.position source) ∧
    (∀ (s s' : Span) (left right : String) (c : Char),
      source = left ++ (String.singleton c ++ right) → left.utf8ByteSize < s.start.toNat →
      s.start ≤ s'.start → s'.start.toNat = left.utf8ByteSize + c.utf8Size →
      s.position source = s'.position source) ∧
    ∀ s s' : Span, s.StartsOnBoundary source → s'.StartsOnBoundary source →
      s.start < s'.start → s'.start < 0xFFFFFFFF →
      (s.position source).Precedes (s'.position source) := by
  refine ⟨?_, ?_, ?_, fun s s' => precedes_position⟩
  · intro s hmax seen
    have hsorted : seen.Pairwise fun e e' => e.1 < e'.1 := pairwise_startedBefore _ source
    have hfew : seen.length < 0xFFFFFFFF :=
      Nat.lt_of_le_of_lt ((length_startedBefore_le _ source).trans (Nat.min_le_left _ _))
        (UInt32.lt_iff_toNat_lt.1 hmax)
    have hcounts := Position.counts_after hsorted hfew
    rw [position_eq_after]
    refine ⟨hcounts.line, hcounts.column, rfl, fun done e rest hseen => ?_⟩
    rw [hseen] at hsorted hfew
    rw [List.length_append, List.length_cons] at hfew
    have hdone := (List.pairwise_append.1 hsorted).1
    exact (Position.counts_after hdone (by omega)).hasRoom (by omega)
  · intro s s' hs hs'
    rw [position_eq_after, position_eq_after, Nat.min_eq_right hs, Nat.min_eq_right hs']
  · rintro s s' left right c rfl hlow hle hstart'
    have hhigh := UInt32.le_iff_toNat_le.1 hle
    have hend : s'.start.toNat ≤ (left ++ (String.singleton c ++ right)).utf8ByteSize := by
      rw [String.utf8ByteSize_append, String.utf8ByteSize_append, String.utf8ByteSize_singleton]
      omega
    rw [position_eq_after, position_eq_after, Nat.min_eq_left (hhigh.trans hend),
      Nat.min_eq_left hend, startedBefore_within hlow (hhigh.trans_eq hstart'),
      startedBefore_within (hlow.trans_le hhigh) hstart'.le]

/-- Two lines with characters of two bytes: an offset within the second `é` stands for the one
behind it, and the offsets before and behind the newline are in different lines. -/
theorem position_counts_accented :
    let source := "aé\né!"
    let within : Span := ⟨5, 6⟩
    let behind : Span := ⟨6, 6⟩
    let lineEnd : Span := ⟨3, 4⟩
    let lineStart : Span := ⟨4, 6⟩
    within.start < 0xFFFFFFFF ∧
    (within.position source).line.toNat = 2 ∧ (within.position source).column.toNat = 2 ∧
    within.position source = behind.position source ∧
    (⟨7, 7⟩ : Span).position source = (⟨100, 100⟩ : Span).position source ∧
    (lineEnd.position source).Precedes (lineStart.position source) := by
  intro source within behind lineEnd lineStart
  have hmax : within.start < 0xFFFFFFFF := by decide
  obtain ⟨hcounts, hpast, hwithin, hlater⟩ := position_counts source
  obtain ⟨hline, hcolumn, -, -⟩ := hcounts within hmax
  have hend : lineEnd.StartsOnBoundary source :=
    String.Pos.Raw.isValid_iff_exists_append.2 ⟨"aé", "\né!", by decide, by decide⟩
  have hstart : lineStart.StartsOnBoundary source :=
    String.Pos.Raw.isValid_iff_exists_append.2 ⟨"aé\n", "é!", by decide, by decide⟩
  exact ⟨hmax, hline.trans (by decide), hcolumn.trans (by decide),
    hwithin within behind "aé\n" "!" 'é' (by decide) (by decide) (by decide) (by decide),
    hpast _ _ (by decide) (by decide), hlater _ _ hend hstart (by decide) (by decide)⟩

end Span

end StyleFunctions
