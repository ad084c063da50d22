import Mathlib.Tactic
import StyleFunctions.Number.Exact
import StyleFunctions.Proofs.Function.Dispatch
import StyleFunctions.Proofs.Text.Base64
import StyleFunctions.Proofs.Text.UrlEncoding

/-!
# Embedded files are not altered

A data URL can be taken apart again: behind its last comma stands the payload, which holds no
comma, quote, parenthesis or white space, and the payload gives back the bytes of the file.

* `DataUrl.IsDataUrl` — a text is the data URL of a media type and a content, and tells both.
* `DataUrl.isDataUrl_text` — the text that a file is replaced by is its data URL.
* `DataUrl.IsDataUrl.eq` — a text is the data URL of one media type and one content only.
* `Settings.call_dataUrl` — a call gives the data URL of a file that may be read, can be read and
  is not empty, and the reference to the file in every other case.
-/

namespace StyleFunctions

namespace DataUrl

/-! ## The last comma -/

/-- The characters before and after the last comma. -/
def cutAtLastComma? : List Char → Option (List Char × List Char)
  | [] => none
  | c :: rest =>
    match cutAtLastComma? rest with
    | some (before, after) => some (c :: before, after)
    | none => if c = ',' then some ([], rest) else none

theorem cutAtLastComma?_eq_none {cs : List Char} (h : ',' ∉ cs) : cutAtLastComma? cs = none := by
  induction cs with
  | nil => rfl
  | cons c rest ih =>
    rw [List.mem_cons, not_or] at h
    rw [cutAtLastComma?, ih h.2]
    exact if_neg (Ne.symm h.1)

/-- A comma that no other one follows is the last. -/
theorem cutAtLastComma?_append {after : List Char} (h : ',' ∉ after) (before : List Char) :
    cutAtLastComma? (before ++ ',' :: after) = some (before, after) := by
  induction before with
  | nil => rw [List.nil_append, cutAtLastComma?, cutAtLastComma?_eq_none h, if_pos rfl]
  | cons c rest ih => rw [List.cons_append, cutAtLastComma?, ih]

/-! ## Payloads -/

/-- A visible character of ASCII, and so no white space, that is neither a quote nor a comma nor
a parenthesis. -/
def IsHarmless (c : Char) : Prop :=
  '!' ≤ c ∧ c ≤ '~' ∧ c ∉ ['\x27', '\x22', ',', '(', ')']

theorem isHarmless_of_isAlphanum {c : Char} (h : c.isAlphanum = true) : IsHarmless c := by
  have hwithin {a z : Char} (ha : '!' ≤ a) (hz : z ≤ '~') (hlow : a ≤ c) (hhigh : c ≤ z) :
      '!' ≤ c ∧ c ≤ '~' := ⟨Char.le_trans ha hlow, Char.le_trans hhigh hz⟩
  have hletter : ((decide ('A' ≤ c ∧ c ≤ 'Z') || (decide ('a' ≤ c) && decide (c ≤ 'z'))) ||
      (decide ('0' ≤ c) && decide (c ≤ '9'))) = true := h
  have hrange : '!' ≤ c ∧ c ≤ '~' := by
    simp only [Bool.or_eq_true, Bool.and_eq_true, decide_eq_true_eq] at hletter
    rcases hletter with (⟨hlow, hhigh⟩ | ⟨hlow, hhigh⟩) | ⟨hlow, hhigh⟩
    · exact hwithin (by decide : '!' ≤ 'A') (by decide : 'Z' ≤ '~') hlow hhigh
    · exact hwithin (by decide : '!' ≤ 'a') (by decide : 'z' ≤ '~') hlow hhigh
    · exact hwithin (by decide : '!' ≤ '0') (by decide : '9' ≤ '~') hlow hhigh
  refine ⟨hrange.1, hrange.2, ?_⟩
  intro hmem
  simp only [List.mem_cons, List.not_mem_nil, or_false] at hmem
  rcases hmem with rfl | rfl | rfl | rfl | rfl <;> exact absurd h (by decide)

theorem isHarmless_digit {n : Nat} (h : n < 64) : IsHarmless (Base64.digit n) := by
  have hall : ∀ n < 64, '!' ≤ Base64.digit n ∧ Base64.digit n ≤ '~' ∧
      Base64.digit n ∉ ['\x27', '\x22', ',', '(', ')'] := by decide
  exact hall n h

theorem isHarmless_of_base64 {c : Char} (h : Base64.IsTextChar c) : IsHarmless c := by
  obtain rfl | ⟨n, hn, rfl⟩ := h
  · exact ⟨by decide, by decide, by decide⟩
  · exact isHarmless_digit hn

theorem isHarmless_of_plain {c : Char} (h : UrlEncoding.plain.IsTextChar c) : IsHarmless c := by
  obtain hself | rfl | ⟨-, hplus⟩ := h
  · obtain hletter | hmark : c.isAlphanum = true ∨ c ∈ ['-', '_', '.', '~'] := by
      simpa [UrlEncoding.Rules.isUnreserved, UrlEncoding.plain] using hself
    · exact isHarmless_of_isAlphanum hletter
    · simp only [List.mem_cons, List.not_mem_nil, or_false] at hmark
      rcases hmark with rfl | rfl | rfl | rfl <;> exact ⟨by decide, by decide, by decide⟩
  · exact ⟨by decide, by decide, by decide⟩
  · cases hplus

theorem isHarmless_of_mem_payload (mime : String) (content : Bytes) :
    ∀ c ∈ (payload mime content).toList, IsHarmless c := by
  intro c hc
  rw [payload] at hc
  split at hc
  · rw [String.toList_ofList] at hc
    exact isHarmless_of_base64 (Base64.isTextChar_of_mem_encode content c hc)
  · rw [UrlEncoding.encodeBytes, String.toList_ofList] at hc
    exact isHarmless_of_plain (UrlEncoding.Rules.isTextChar_of_mem_encode content c hc)

/-- The bytes that a payload stands for under a media type: base 64 if the media type ends in
`;base64`, otherwise letters, digits, the four marks that stand for themselves, and escapes. -/
def decodePayload? (mime : String) (payload : List Char) : Option Bytes :=
  if ";base64".toList <:+ mime.toList then Base64.decode? payload
  else UrlEncoding.Rules.decode? ⟨['-', '_', '.', '~'], false⟩ payload

theorem decodePayload?_payload (mime : String) (content : Bytes) :
    decodePayload? mime (payload mime content).toList = some content := by
  have hmark : wantsBase64 mime = true ↔ ";base64".toList <:+ mime.toList :=
    List.isSuffixOf_iff_suffix
  rw [decodePayload?, payload]
  by_cases h : ";base64".toList <:+ mime.toList
  · rw [if_pos h, if_pos (hmark.2 h), String.toList_ofList, Base64.decode?_encode]
  · rw [if_neg h, if_neg (mt hmark.1 h), UrlEncoding.encodeBytes, String.toList_ofList]
    exact UrlEncoding.Rules.decode?_encode UrlEncoding.Rules.unambiguous_plain content

/-! ## Texts -/

/-- What a data URL begins with. -/
def opening : List Char := "'data:".toList

/-- What a data URL ends in. -/
def closing : List Char := "'".toList

/-- A text is a data URL: it holds a media type and, behind the last comma, a payload that
stands for a content. -/
structure IsDataUrl (mime : String) (content : Bytes) (text : String) (payload : List Char) :
    Prop where
  shape : text = "'data:" ++ mime ++ "," ++ String.ofList payload ++ "'"
  harmless : ∀ c ∈ payload, IsHarmless c
  cut : cutAtLastComma? text.toList = some (opening ++ mime.toList, payload ++ closing)
  decodes : decodePayload? mime payload = some content

theorem isDataUrl_text (mime : String) (content : Bytes) :
    IsDataUrl mime content (text mime content) (payload mime content).toList where
  shape := by rw [String.ofList_toList, text]
  harmless := isHarmless_of_mem_payload mime content
  cut := by
    -- The media type may hold commas, but the last one is that before the payload.
    have hcomma : ',' ∉ (payload mime content).toList ++ closing := by
      rw [List.mem_append]
      rintro (h | h)
      · exact (isHarmless_of_mem_payload mime content ',' h).2.2 (by decide)
      · exact absurd h (by decide)
    have hlist : (text mime content).toList =
        opening ++ mime.toList ++ ',' :: ((payload mime content).toList ++ closing) := by
      simp [text, opening, closing]
    rw [hlist, cutAtLastComma?_append hcomma]
  decodes := decodePayload?_payload mime content

/-- A text tells its media type and its content. -/
theorem IsDataUrl.eq {mime mime' : String} {content content' : Bytes} {text : String}
    {payload payload' : List Char} (h : IsDataUrl mime content text payload)
    (h' : IsDataUrl mime' content' text payload') : mime = mime' ∧ content = content' := by
  have hcut := h.cut.symm.trans h'.cut
  simp only [Option.some.injEq, Prod.mk.injEq, List.append_cancel_left_eq,
    List.append_cancel_right_eq, String.toList_inj] at hcut
  obtain ⟨rfl, rfl⟩ := hcut
  have hcontent := h.decodes.symm.trans h'.decodes
  exact ⟨rfl, Option.some.inj hcontent⟩

/-! ## Embedding -/

/-- A file may be read and has a content. -/
def Finds (mode : EvalMode) (loader : Loader) (path : String) (content : Bytes) : Prop :=
  mode.allowsFiles = true ∧ loader.load path = .ok content ∧ content ≠ []

theorem content?_eq_some_iff {mode : EvalMode} {loader : Loader} {path : String}
    {content : Bytes} : content? mode loader path = some content ↔
      Finds mode loader path content := by
  rw [content?, Finds]
  cases mode.allowsFiles with
  | false => simp
  | true =>
    cases loader.load path with
    | error e => simp
    | ok bytes =>
      cases bytes with
      | nil => simp
      | cons b rest =>
        simp only [true_and, Except.ok.injEq, if_true, Option.some.injEq]
        exact ⟨fun h => ⟨h, h ▸ List.cons_ne_nil b rest⟩, fun h => h.1⟩

section

variable {α : Type} [Scalar α]

/-- The path that is asked for: that of the first argument if there is no second. -/
def requested (first : Value α) (path : Option (Value α)) : String :=
  (path.map Value.rawText).getD first.rawText

theorem embed_eq (mode : EvalMode) (loader : Loader) (first : Value α)
    (path : Option (Value α)) : embed mode loader first path =
      match content? mode loader (requested first path) with
      | some content => .url (.anonymous (text first.rawText content))
      | none => .url (.anonymous (requested first path)) := by
  cases path <;> rfl

variable {mode : EvalMode} {loader : Loader} {first : Value α} {path : Option (Value α)}

/-- A file that is found is replaced by its data URL. -/
theorem embed_of_finds {content : Bytes} (h : Finds mode loader (requested first path) content) :
    embed mode loader first path = .url (.anonymous (text first.rawText content)) := by
  rw [embed_eq, content?_eq_some_iff.2 h]

/-- The reference to a file that is not found stays. -/
theorem embed_of_not_finds (h : ∀ content, ¬ Finds mode loader (requested first path) content) :
    embed mode loader first path = .url (.anonymous (requested first path)) := by
  have hcontent : content? mode loader (requested first path) = none :=
    Option.eq_none_iff_forall_ne_some.2 fun content hc => h content (content?_eq_some_iff.1 hc)
  rw [embed_eq, hcontent]

end

end DataUrl

/-! ## Calls -/

namespace Settings

variable {α : Type} [Scalar α]

/-- A call with one argument or two embeds. -/
theorem call_eq_embed (settings : Settings) {name : String}
    (hname : Builtin.canonicalName name = Builtin.dataUrl.name) (first : Value α)
    (path : Option (Value α)) (site : CallSite) :
    settings.call name (first :: path.toList) site =
      .ok (some (DataUrl.embed settings.mode settings.loader first path)) := by
  have hcount : Builtin.dataUrl.arity.accepts (first :: path.toList).length = true := by
    cases path <;> rfl
  rw [call, outcome_of_accepted_count (Builtin.lookup?_eq_some_iff.2 hname) hcount]
  cases path <;> rfl

/-- The file that a call asks for may be read, can be read and is not empty. -/
def Finds (settings : Settings) (first : Value α) (path : Option (Value α)) (content : Bytes) :
    Prop :=
  DataUrl.Finds settings.mode settings.loader (DataUrl.requested first path) content

/-- A call never fails.  For a file that is found it gives a data URL that tells the media type
and the content, so that calls with another media type or another content give another text.  In
every other case it gives the reference as it was. -/
theorem call_dataUrl (settings : Settings) {name : String}
    (hname : Builtin.canonicalName name = Builtin.dataUrl.name) (first : Value α)
    (path : Option (Value α)) (site : CallSite) :
    (∀ content, settings.Finds first path content →
      ∃ text payload,
        settings.call name (first :: path.toList) site = .ok (some (.url (.anonymous text))) ∧
        DataUrl.IsDataUrl first.rawText content text payload) ∧
    ((∀ content, ¬ settings.Finds first path content) →
      settings.call name (first :: path.toList) site =
        .ok (some (.url (.anonymous (DataUrl.requested first path))))) ∧
    ∀ (settings' : Settings) (name' : String) (first' : Value α) (path' : Option (Value α))
      (site' : CallSite) (content content' : Bytes),
      Builtin.canonicalName name' = Builtin.dataUrl.name →
      settings.Finds first path content → settings'.Finds first' path' content' →
      settings.call name (first :: path.toList) site =
        settings'.call name' (first' :: path'.toList) site' →
      first.rawText = first'.rawText ∧ content = content' := by
  refine ⟨?_, ?_, ?_⟩
  · intro content hcontent
    refine ⟨_, _, ?_, DataUrl.isDataUrl_text first.rawText content⟩
    rw [call_eq_embed settings hname, DataUrl.embed_of_finds hcontent]
  · intro hnone
    rw [call_eq_embed settings hname, DataUrl.embed_of_not_finds hnone]
  · intro settings' name' first' path' site' content content' hname' hcontent hcontent' heq
    rw [call_eq_embed settings hname, call_eq_embed settings' hname',
      DataUrl.embed_of_finds hcontent, DataUrl.embed_of_finds hcontent'] at heq
    simp only [Except.ok.injEq, Option.some.injEq, Value.url.injEq, Value.anonymous.injEq] at heq
    have htext := DataUrl.isDataUrl_text first.rawText content
    rw [heq] at htext
    exact htext.eq (DataUrl.isDataUrl_text first'.rawText content')

/-- Two bytes under a media type with a comma in it, once in base 64 and once percent-encoded, and
the same file where files may not be read. -/
theorem call_dataUrl_logo :
    let files : Loader := .memory (MemoryFiles.ofList [("logo", [0x2C, 0xFF])])
    let compile : Settings := ⟨.compile, {}, files⟩
    let sandbox : Settings := ⟨.sandboxed, {}, files⟩
    let path : Value Rat := .string "logo"
    let site : CallSite := ⟨"DataURI", none, none⟩
    Builtin.canonicalName "DataURI" = Builtin.dataUrl.name ∧
      (∀ first : Value Rat, compile.Finds first (some path) [0x2C, 0xFF]) ∧
      compile.call "DataURI" [.string "a,b;base64", path] site =
        .ok (some (.url (.anonymous "'data:a,b;base64,LP8='"))) ∧
      DataUrl.IsDataUrl "a,b;base64" [0x2C, 0xFF] "'data:a,b;base64,LP8='" "LP8=".toList ∧
      compile.call "DataURI" [.string "a,b", path] site =
        .ok (some (.url (.anonymous "'data:a,b,%2C%FF'"))) ∧
      DataUrl.IsDataUrl "a,b" [0x2C, 0xFF] "'data:a,b,%2C%FF'" "%2C%FF".toList ∧
      (∀ (first : Value Rat) content, ¬ sandbox.Finds first (some path) content) ∧
      sandbox.call "DataURI" [.string "a,b;base64", path] site =
        .ok (some (.url (.anonymous "logo"))) := by
  intro files compile sandbox path site
  have hname : Builtin.canonicalName "DataURI" = Builtin.dataUrl.name := by decide
  have hfound (first : Value Rat) : compile.Finds first (some path) [0x2C, 0xFF] :=
    ⟨rfl, rfl, by decide⟩
  have hdenied (first : Value Rat) (content : Bytes) :
      ¬ sandbox.Finds first (some path) content := by
    rintro ⟨hallowed, -⟩
    cases hallowed
  -- the text of a call is computed, and its payload is what the text has behind the last comma
  have hembeds (mime text : String) (payload : List Char)
      (htext : DataUrl.text mime [0x2C, 0xFF] = text)
      (hcut : DataUrl.cutAtLastComma? text.toList =
        some (DataUrl.opening ++ mime.toList, payload ++ DataUrl.closing)) :
      compile.call "DataURI" [.string mime, path] site = .ok (some (.url (.anonymous text))) ∧
        DataUrl.IsDataUrl mime [0x2C, 0xFF] text payload := by
    obtain ⟨given, encoded, hcall, hurl⟩ :=
      (call_dataUrl compile hname (.string mime) (some path) site).1 _ (hfound _)
    have hgiven := hcall.symm.trans (call_eq_embed compile hname (.string mime) (some path) site)
    rw [DataUrl.embed_of_finds (hfound _)] at hgiven
    simp only [Except.ok.injEq, Option.some.injEq, Value.url.injEq, Value.anonymous.injEq] at hgiven
    obtain rfl : given = text := hgiven.trans htext
    have hencoded := hurl.cut.symm.trans hcut
    simp only [Option.some.injEq, Prod.mk.injEq, List.append_cancel_right_eq] at hencoded
    obtain ⟨-, rfl⟩ := hencoded
    exact ⟨hcall, hurl⟩
  obtain ⟨hbase64, hbase64Url⟩ :=
    hembeds "a,b;base64" "'data:a,b;base64,LP8='" "LP8=".toList (by decide) (by decide)
  obtain ⟨hplain, hplainUrl⟩ :=
    hembeds "a,b" "'data:a,b,%2C%FF'" "%2C%FF".toList (by decide) (by decide)
  exact ⟨hname, hfound, hbase64, hbase64Url, hplain, hplainUrl, hdenied,
    (call_dataUrl sandbox hname _ (some path) site).2.1 (hdenied _)⟩

end Settings

end StyleFunctions
