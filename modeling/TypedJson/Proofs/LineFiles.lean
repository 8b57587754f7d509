import TypedJson.Proofs.CommandRuns
import TypedJson.Proofs.Encoding
import TypedJson.Proofs.ReportFile
/-!
# Documents line by line

A value that is written compactly is one line: no character of the text is a control
character (`Json.noControls_compactChars`).  So a file with a value on each line, and blank
lines anywhere, is read as these values, each under the number of its line
(`LabelledDocument.ofLines_charsOf`); a line that holds something else spoils all
(`LabelledDocument.ofLines_of_bad`).
-/
namespace TypedJson

/-! ## Text without control characters

Strings are the only part of a text that a document could smuggle a line end into, and they
are written with control characters escaped. -/

namespace Json

def NoControls (cs : List Char) : Prop := ∀ c ∈ cs, 0x20 ≤ c.toNat

section NoControls

variable {c : Char} {cs ds : List Char}

theorem noControls_of_all (h : (cs.all fun c => decide (0x20 ≤ c.toNat)) = true) : NoControls cs :=
  fun c hc => of_decide_eq_true (List.all_eq_true.1 h c hc)

theorem noControls_nil : NoControls [] := fun _ h => by cases h

theorem NoControls.cons (hc : 0x20 ≤ c.toNat) (h : NoControls cs) : NoControls (c :: cs) := by
  intro d hd
  rcases List.mem_cons.1 hd with rfl | hd
  · exact hc
  · exact h d hd

theorem NoControls.append (hcs : NoControls cs) (hds : NoControls ds) : NoControls (cs ++ ds) := by
  intro d hd
  rcases List.mem_append.1 hd with hd | hd
  · exact hcs d hd
  · exact hds d hd

theorem NoControls.mono (h : NoControls cs) (hsub : ∀ d ∈ ds, d ∈ cs) : NoControls ds :=
  fun d hd => h d (hsub d hd)

theorem noControls_replicate (hc : 0x20 ≤ c.toNat) (n : Nat) : NoControls (List.replicate n c) :=
  fun _ hd => by rwa [List.eq_of_mem_replicate hd]

theorem noControls_digits (n : Nat) : NoControls (Decimal.digits n) := by
  intro c hc
  have hdigit : 48 ≤ c.toNat ∧ c.toNat ≤ 57 := Char.isDigit_iff_toNat.1 (isDigit_of_mem_digits hc)
  omega

end NoControls

theorem hexDigit_ge : ∀ n < 16, 0x20 ≤ (hexDigit n).toNat := by decide

theorem noControls_escapeChar (c : Char) : NoControls (escapeChar c) := by
  unfold escapeChar
  by_cases hquote : c = '"'
  · rw [if_pos hquote]
    exact noControls_of_all rfl
  by_cases hslash : c = '\\'
  · rw [if_neg hquote, if_pos hslash]
    exact noControls_of_all rfl
  rw [if_neg hquote, if_neg hslash]
  by_cases hcontrol : c.toNat < 0x20
  · rw [if_pos hcontrol]
    -- five control characters have escapes of their own
    split
    · exact noControls_of_all rfl
    · exact noControls_of_all rfl
    · exact noControls_of_all rfl
    · exact noControls_of_all rfl
    · exact noControls_of_all rfl
    · have hhigh := hexDigit_ge (c.toNat / 16) (by omega)
      have hlow := hexDigit_ge (c.toNat % 16) (by omega)
      have hmark : NoControls ['\\', 'u', '0', '0'] := noControls_of_all rfl
      exact hmark.append (.cons hhigh (.cons hlow noControls_nil))
  · rw [if_neg hcontrol]
    exact .cons (by omega) noControls_nil

theorem noControls_quoted (s : String) : NoControls (quoted s) := by
  have hbody : NoControls (s.toList.flatMap escapeChar) := by
    intro d hd
    obtain ⟨c, -, hc⟩ := List.mem_flatMap.1 hd
    exact noControls_escapeChar c d hc
  exact .append (.cons (by decide) hbody) (.cons (by decide) noControls_nil)

theorem noControls_positional (d : Decimal) : NoControls d.positional := by
  have hdigits := noControls_digits d.coefficient
  unfold Decimal.positional
  dsimp only
  split
  · exact hdigits.append (noControls_replicate (by decide) _)
  split
  · exact (hdigits.mono fun _ => List.mem_of_mem_take).append
      (.cons (by decide) (hdigits.mono fun _ => List.mem_of_mem_drop))
  · exact .append (.cons (by decide) (.cons (by decide) (noControls_replicate (by decide) _))) hdigits

theorem noControls_scientific (d : Decimal) : NoControls (d.scientific ['+']) := by
  have hdigits := noControls_digits d.coefficient
  have hexponent : NoControls ((if d.pointPosition - 1 < 0 then ['-'] else ['+']) ++
      Decimal.digits (d.pointPosition - 1).natAbs) := by
    refine .append ?_ (noControls_digits _)
    split
    · exact .cons (by decide) noControls_nil
    · exact .cons (by decide) noControls_nil
  unfold Decimal.scientific
  dsimp only
  split
  · exact noControls_nil
  · rename_i c hd
    rw [hd] at hdigits
    exact .cons (hdigits c List.mem_cons_self) (.cons (by decide) hexponent)
  · rename_i c cs _ hd
    rw [hd] at hdigits
    refine .append (.cons (hdigits c List.mem_cons_self) (.cons (by decide) ?_))
      (.cons (by decide) hexponent)
    exact hdigits.mono fun _ => List.mem_cons_of_mem c

theorem noControls_jsonText (d : Double) : NoControls d.jsonText.toList := by
  unfold Double.jsonText Double.markedText
  dsimp only
  rw [String.toList_ofList]
  refine .append ?_ ?_
  · unfold Double.signText
    split
    · exact .cons (by decide) noControls_nil
    · exact noControls_nil
  have hzero : NoControls ['.', '0'] := .cons (by decide) (.cons (by decide) noControls_nil)
  split
  · exact .cons (by decide) hzero
  split
  · split
    · exact (noControls_positional _).append hzero
    · exact noControls_positional _
  · exact noControls_scientific _

theorem noControls_scalarText (n : JsonNumber) : NoControls (scalarText n) := by
  cases n with
  | float d => exact noControls_jsonText d
  | int i =>
    cases i with
    | ofNat n =>
      have htext : scalarText (.int (Int.ofNat n)) = Decimal.digits n := by
        show (Nat.repr n).toList = Nat.toDigits 10 n
        rw [Nat.repr_eq_ofList_toDigits, String.toList_ofList]
      rw [htext]
      exact noControls_digits n
    | negSucc n =>
      have htext : scalarText (.int (Int.negSucc n)) = '-' :: Decimal.digits (n + 1) := by
        show ("-" ++ Nat.repr (n + 1)).toList = '-' :: Nat.toDigits 10 (n + 1)
        rw [Nat.repr_eq_ofList_toDigits, String.toList_append, String.toList_ofList,
          String.toList_ofList]
        exact List.singleton_append
      rw [htext]
      exact .cons (by decide) (noControls_digits _)

mutual

/-- **No character of a compact text is a control character**, whatever the strings in it hold. -/
theorem noControls_compactChars : ∀ j : Json, NoControls (compactChars j)
  | .null => noControls_of_all rfl
  | .bool true => noControls_of_all rfl
  | .bool false => noControls_of_all rfl
  | .number n => noControls_scalarText n
  | .string s => noControls_quoted s
  | .array items => .cons (by decide) (noControls_compactItems items)
  | .object members => .cons (by decide) (noControls_compactMembers members)

theorem noControls_compactItems : ∀ items : List Json, NoControls (compactItems items)
  | [] => .cons (by decide) noControls_nil
  | [j] => (noControls_compactChars j).append (.cons (by decide) noControls_nil)
  | j :: k :: items => (noControls_compactChars j).append
      (.cons (by decide) (noControls_compactItems (k :: items)))

theorem noControls_compactMembers : ∀ members : List (String × Json),
    NoControls (compactMembers members)
  | [] => .cons (by decide) noControls_nil
  | [(name, j)] => ((noControls_quoted name).append
      (.cons (by decide) (noControls_compactChars j))).append (.cons (by decide) noControls_nil)
  | (name, j) :: m :: members => ((noControls_quoted name).append
      (.cons (by decide) (noControls_compactChars j))).append
        (.cons (by decide) (noControls_compactMembers (m :: members)))

end

/-- **A value is read back from its compact text.** -/
theorem ofSource_compact {v : Json} (hdepth : v.depth < Decode.depthLimit)
    (hnames : v.DistinctNames) (hfits : v.Fits) : ofSource (Source.ofString v.compact) = .ok v := by
  have hscan : Document.scanSource (Source.ofString v.compact) = ⟨.ofJson v, some []⟩ := by
    have hend : Source.EndsNumber [] := ⟨rfl, by rintro ⟨⟩, rfl⟩
    have hlaid := Document.scan_laidOut none v hfits
      (2 * ((laidOut none v).map some).length + 1) [] (by rw [List.length_map]) hend
    rw [List.append_nil] at hlaid
    rw [Source.ofString, compact, String.toList_ofList, compactChars_eq]
    exact hlaid
  have hvalue : Decode.value [] (.ofJson v) = .ok v :=
    Decode.value_ofJson hnames (by rw [List.length_nil]; omega)
  unfold ofSource
  rw [hscan]
  dsimp only
  rw [hvalue]
  rfl

theorem isBlank_of_numberHead {c : Char} (hc : (c == '-' || c.isDigit) = true) :
    Text.isBlank c = false := by
  rcases Bool.or_eq_true_iff.1 hc with hminus | hdigit
  · rw [beq_iff_eq.1 hminus]
    rfl
  · have hrange : 48 ≤ c.toNat ∧ c.toNat ≤ 57 := Char.isDigit_iff_toNat.1 hdigit
    simp only [Text.isBlank, Bool.or_eq_false_iff, Bool.and_eq_false_iff, decide_eq_false_iff_not,
      beq_eq_false_iff_ne]
    omega

theorem compactChars_head : ∀ {v : Json}, v.Fits →
    ∃ c cs, compactChars v = c :: cs ∧ Text.isBlank c = false
  | .null, _ => ⟨'n', _, rfl, rfl⟩
  | .bool true, _ => ⟨'t', _, rfl, rfl⟩
  | .bool false, _ => ⟨'f', _, rfl, rfl⟩
  | .string _, _ => ⟨'"', _, rfl, rfl⟩
  | .array _, _ => ⟨'[', _, rfl, rfl⟩
  | .object _, _ => ⟨'\x7b', _, rfl, rfl⟩
  | .number _, hfits => by
    obtain ⟨c, cs, hcs, hc⟩ := Document.scalarText_head hfits
    exact ⟨c, cs, hcs, isBlank_of_numberHead hc⟩

end Json

/-! ## Lines of a text

A text is cut at line feeds, and a return in front of one is dropped; a value has neither,
so its line is found whole with either kind of end. -/

namespace Text

theorem cutLines_append_feed : ∀ {cs : List Char} (line rest : List Char), '\n' ∉ cs →
    cutLines line (cs ++ '\n' :: rest) = dropReturn (line.reverse ++ cs) :: cutLines [] rest
  | [], line, rest, _ => by
    rw [List.nil_append, cutLines, if_pos rfl, List.append_nil]
  | c :: cs, line, rest, h => by
    rw [List.mem_cons, not_or] at h
    rw [List.cons_append, cutLines, if_neg (Ne.symm h.1), cutLines_append_feed _ rest h.2,
      List.reverse_cons, List.append_assoc, List.singleton_append]

theorem cutLines_of_not_mem : ∀ {cs : List Char} (line : List Char), '\n' ∉ cs →
    cutLines line cs = if (line.reverse ++ cs).isEmpty then [] else [line.reverse ++ cs]
  | [], line, _ => by
    rw [cutLines, List.append_nil, List.isEmpty_reverse]
  | c :: cs, line, h => by
    rw [List.mem_cons, not_or] at h
    rw [cutLines, if_neg (Ne.symm h.1), cutLines_of_not_mem _ h.2, List.reverse_cons,
      List.append_assoc, List.singleton_append]

theorem dropReturn_append_return (cs : List Char) : dropReturn (cs ++ ['\r']) = cs := by
  rw [dropReturn, if_pos List.getLast?_concat, List.dropLast_concat]

theorem dropReturn_of_not_mem {cs : List Char} (h : '\r' ∉ cs) : dropReturn cs = cs :=
  if_neg fun hlast => h (List.mem_of_getLast? hlast)

theorem mem_of_mem_dropReturn {cs : List Char} {c : Char} (h : c ∈ dropReturn cs) : c ∈ cs := by
  unfold dropReturn at h
  split at h
  · exact List.mem_of_mem_dropLast h
  · exact h

end Text

/-! ## Files of lines

`LineFile` is the file as it was written, with its blank lines and line ends, and `Reads`
what becomes of one of its lines.  Numbers are counted over all lines, blank ones included. -/

/-- What stands on a line: blanks, or a value written compactly. -/
inductive LineContent
  | blank (cs : List Char)
  | value (v : Json)

namespace LineContent

def chars : LineContent → List Char
  | .blank cs => cs
  | .value v => Json.compactChars v

def value? : LineContent → Option Json
  | .blank _ => none
  | .value v => some v

/-- The blanks do not end the line, and the value is one that can be read at all: it is not nested
too deeply, no name comes twice in an object, and the integers have at most sixty-four bits. -/
def Sound : LineContent → Prop
  | .blank cs => ∀ c ∈ cs, Text.isBlank c = true ∧ c ≠ '\n'
  | .value v => v.depth < 128 ∧ v.DistinctNames ∧ v.Fits

theorem Sound.not_mem_feed : ∀ {content : LineContent}, content.Sound → '\n' ∉ content.chars
  | .blank _, h => fun hmem => (h '\n' hmem).2 rfl
  | .value v, _ => fun hmem => absurd (Json.noControls_compactChars v '\n' hmem) (by decide)

end LineContent

inductive LineEnd
  | feed
  | returnFeed

def LineEnd.chars : LineEnd → List Char
  | .feed => ['\n']
  | .returnFeed => ['\r', '\n']

/-- A file of lines, each with its end, but for a last one that may be without. -/
structure LineFile where
  path : String
  lines : List (LineContent × LineEnd)
  last? : Option LineContent

namespace LineFile

def charsOf (lines : List (LineContent × LineEnd)) (last? : Option LineContent) : List Char :=
  lines.flatMap (fun line => line.1.chars ++ line.2.chars) ++ (last?.map (·.chars)).getD []

def text (f : LineFile) : String := String.ofList (charsOf f.lines f.last?)

def contents (f : LineFile) : List LineContent := f.lines.map (·.1) ++ f.last?.toList

/-- The values with the numbers of their lines, counted from the given one. -/
def numbered (path : String) (number : Nat) (contents : List LineContent) : List LabelledDocument :=
  (contents.zipIdx number).filterMap fun (content, k) =>
    content.value?.map fun v => ⟨path ++ ":" ++ toString k, v⟩

/-- Blank lines count, but hold no document. -/
def documents (f : LineFile) : List LabelledDocument := numbered f.path 1 f.contents

def Sound (f : LineFile) : Prop := ∀ content ∈ f.contents, content.Sound

end LineFile

namespace LabelledDocument

open LineFile

/-- A line as it is read: the return in front of a line feed is gone. -/
inductive Reads : LineContent → List Char → Prop
  | blank {cs : List Char} (read : List Char) : (∀ c ∈ read, Text.isBlank c = true) →
    Reads (.blank cs) read
  | value (v : Json) : Reads (.value v) (Json.compactChars v)

/-! A line goes through the reader by itself: the return in front of the line feed is dropped, a
blank line is passed over but counted, and any other one is a document with its number. -/

theorem reads_chars : ∀ {content : LineContent}, content.Sound → Reads content content.chars
  | .blank cs, h => .blank cs fun c hc => (h c hc).1
  | .value v, _ => .value v

theorem reads_dropReturn : ∀ {content : LineContent}, content.Sound →
    Reads content (Text.dropReturn content.chars)
  | .blank cs, h => .blank _ fun c hc => (h c (Text.mem_of_mem_dropReturn hc)).1
  | .value v, _ => by
    have hplain : '\r' ∉ Json.compactChars v := fun hmem =>
      absurd (Json.noControls_compactChars v '\r' hmem) (by decide)
    rw [LineContent.chars, Text.dropReturn_of_not_mem hplain]
    exact .value v

theorem numbered_cons (path : String) (number : Nat) (content : LineContent)
    (contents : List LineContent) :
    numbered path number (content :: contents) =
      numbered path number [content] ++ numbered path (number + 1) contents := by
  cases content with
  | blank => rfl
  | value => rfl

theorem ofLines_cons {path : String} {number : Nat} {content : LineContent} {read : List Char}
    {rest : List String} {documents : List LabelledDocument} (hsound : content.Sound)
    (hread : Reads content read) (hrest : ofLines path (number + 1) rest = .ok documents) :
    ofLines path number (String.ofList read :: rest) =
      .ok (numbered path number [content] ++ documents) := by
  cases hread with
  | blank read hblank =>
    have hline : isBlankLine (String.ofList read) = true := by
      rw [isBlankLine, String.toList_ofList]
      exact List.all_eq_true.2 hblank
    rw [ofLines, if_pos hline, hrest]
    rfl
  | value v =>
    obtain ⟨hdepth, hnames, hfits⟩ := hsound
    have hline : isBlankLine (String.ofList (Json.compactChars v)) = false := by
      obtain ⟨c, cs, hcs, hc⟩ := Json.compactChars_head hfits
      rw [isBlankLine, String.toList_ofList, hcs, List.all_cons, hc, Bool.false_and]
    have hvalue : Json.ofSource (Source.ofString (String.ofList (Json.compactChars v))) = .ok v :=
      Json.ofSource_compact hdepth hnames hfits
    rw [ofLines, hline, if_neg (by decide), ofLine, hvalue, hrest]
    rfl

theorem ofLines_last {path : String} (number : Nat) {content : LineContent}
    (hsound : content.Sound) :
    ofLines path number ((Text.cutLines [] content.chars).map String.ofList) =
      .ok (numbered path number [content]) := by
  rw [Text.cutLines_of_not_mem [] hsound.not_mem_feed, List.reverse_nil, List.nil_append]
  by_cases hempty : content.chars.isEmpty = true
  · rw [if_pos hempty]
    cases content with
    | blank => rfl
    | value v =>
      obtain ⟨c, cs, hcs, -⟩ := Json.compactChars_head hsound.2.2
      rw [LineContent.chars, hcs] at hempty
      cases hempty
  · rw [if_neg hempty]
    have hlast : ofLines path (number + 1) [] = .ok [] := rfl
    exact (ofLines_cons hsound (reads_chars hsound) hlast).trans
      (congrArg Except.ok (List.append_nil _))

theorem ofLines_charsOf (path : String) {last? : Option LineContent}
    (hlast : ∀ content ∈ last?, content.Sound) :
    ∀ (lines : List (LineContent × LineEnd)) (number : Nat), (∀ line ∈ lines, line.1.Sound) →
    ofLines path number ((Text.cutLines [] (charsOf lines last?)).map String.ofList) =
      .ok (numbered path number (lines.map (·.1) ++ last?.toList))
  | [], number, _ => by
    cases last? with
    | none => rfl
    | some content => exact ofLines_last number (hlast content rfl)
  | (content, ending) :: lines, number, hlines => by
    have hsound : content.Sound := hlines _ List.mem_cons_self
    have hrest := ofLines_charsOf path hlast lines (number + 1) fun line hline =>
      hlines line (List.mem_cons_of_mem _ hline)
    -- a line holds no line feed, so it is cut where it was ended
    have hfeed := hsound.not_mem_feed
    rw [List.map_cons, List.cons_append, numbered_cons]
    cases ending with
    | feed =>
      have hchars : charsOf ((content, .feed) :: lines) last? =
          content.chars ++ '\n' :: charsOf lines last? := by
        simp [charsOf, LineEnd.chars]
      rw [hchars, Text.cutLines_append_feed [] _ hfeed, List.map_cons]
      exact ofLines_cons hsound (reads_dropReturn hsound) hrest
    | returnFeed =>
      have hchars : charsOf ((content, .returnFeed) :: lines) last? =
          (content.chars ++ ['\r']) ++ '\n' :: charsOf lines last? := by
        simp [charsOf, LineEnd.chars]
      have hreturn : '\n' ∉ content.chars ++ ['\r'] := by
        rw [List.mem_append, not_or]
        exact ⟨hfeed, by decide⟩
      rw [hchars, Text.cutLines_append_feed [] _ hreturn, List.map_cons, List.reverse_nil,
        List.nil_append, Text.dropReturn_append_return]
      exact ofLines_cons hsound (reads_chars hsound) hrest

/-- A line that is neither blank nor one JSON text spoils the whole file. -/
theorem ofLines_of_bad {path line : String} (hblank : isBlankLine line = false)
    (hbad : ∀ v, Json.ofSource (Source.ofString line) ≠ .ok v) :
    ∀ {lines : List String} (number : Nat), line ∈ lines → ∃ fault, ofLines path number lines = .error fault
  | first :: rest, number, hmem => by
    rw [ofLines]
    by_cases hfirst : isBlankLine first = true
    · rw [if_pos hfirst]
      rcases List.mem_cons.1 hmem with rfl | hmem
      · rw [hblank] at hfirst
        cases hfirst
      · exact ofLines_of_bad hblank hbad _ hmem
    rw [if_neg hfirst]
    cases hline : ofLine path number first with
    | error fault => exact ⟨fault, rfl⟩
    | ok document =>
      rcases List.mem_cons.1 hmem with rfl | hmem
      · unfold ofLine at hline
        dsimp only at hline
        cases hread : Json.ofSource (Source.ofString line) with
        | ok v => exact absurd hread (hbad v)
        | error fault => rw [hread] at hline; cases hline
      · obtain ⟨fault, hfault⟩ := ofLines_of_bad hblank hbad (number + 1) hmem
        exact ⟨fault, by rw [hfault]; rfl⟩

end LabelledDocument

/-! ## Loading

The files are loaded in their order, and the first fault ends it. -/

namespace InputSettings

open LabelledDocument

/-- Every line is a document of its own, and nothing else is done. -/
def byLineOnly : InputSettings := ⟨true, none, none⟩

theorem mapM_prepared : ∀ documents : List LabelledDocument,
    documents.mapM byLineOnly.prepared = .ok (documents.map ([·]))
  | [] => rfl
  | d :: documents => by
    rw [List.mapM_cons, mapM_prepared documents]
    rfl

theorem ofText_byLineOnly (path text : String) :
    byLineOnly.ofText path text = ofLines path 1 (Text.lines text) := by
  have hload : byLineOnly.ofText path text = (do
      let documents ← ofLines path 1 (Text.lines text)
      pure (← documents.mapM byLineOnly.prepared).flatten) := rfl
  rw [hload]
  cases ofLines path 1 (Text.lines text) with
  | error fault => rfl
  | ok documents =>
    show (do pure (← documents.mapM byLineOnly.prepared).flatten) = _
    rw [mapM_prepared]
    have hflat : (documents.map ([·])).flatten = documents := by
      rw [← List.flatMap_def, List.flatMap_singleton']
    exact congrArg Except.ok hflat

theorem ofFile_byLineOnly {f : LineFile} (hsound : f.Sound) :
    byLineOnly.ofFile f.path (.ok (Bytes.ofText f.text)) = .ok f.documents := by
  unfold ofFile
  dsimp only
  rw [Source.toText?_ofBytes_ofText]
  dsimp only
  rw [ofText_byLineOnly, Text.lines, LineFile.text, String.toList_ofList]
  refine ofLines_charsOf f.path (fun content hlast => hsound content ?_) f.lines 1
    fun line hline => hsound line.1 ?_
  · exact List.mem_append_right _ (Option.mem_toList.2 hlast)
  · exact List.mem_append_left _ (List.mem_map_of_mem hline)

theorem load_cons (path : String) (content : Except FileFault Bytes)
    (rest : List (String × Except FileFault Bytes)) :
    byLineOnly.load ((path, content) :: rest) = (do
      let documents ← byLineOnly.ofFile path content
      pure (documents ++ (← byLineOnly.load rest))) := by
  unfold load
  simp only [List.mapM_cons, bind_assoc, pure_bind, List.flatten_cons]

/-- The values of all files in order. -/
theorem load_byLineOnly : ∀ {fs : List LineFile}, (∀ f ∈ fs, f.Sound) →
    byLineOnly.load (fs.map fun f => (f.path, .ok (Bytes.ofText f.text))) =
      .ok (fs.flatMap (·.documents))
  | [], _ => rfl
  | f :: fs, hsound => by
    have hfirst := ofFile_byLineOnly (hsound f List.mem_cons_self)
    have hrest := load_byLineOnly fun g hg => hsound g (List.mem_cons_of_mem f hg)
    rw [List.map_cons, load_cons, hfirst, hrest]
    rfl

/-- The bytes are no text, or some line of it is neither blank nor one JSON text. -/
def Spoilt (bytes : Bytes) : Prop :=
  ∀ text, (Source.ofBytes bytes).toText? = some text → ∃ line ∈ Text.lines text,
    isBlankLine line = false ∧ ∀ v, Json.ofSource (Source.ofString line) ≠ .ok v

theorem ofFile_of_spoilt {bytes : Bytes} (h : Spoilt bytes) (path : String) :
    ∃ fault, byLineOnly.ofFile path (.ok bytes) = .error fault := by
  unfold ofFile
  dsimp only
  cases htext : (Source.ofBytes bytes).toText? with
  | none => exact ⟨_, rfl⟩
  | some text =>
    obtain ⟨line, hline, hblank, hbad⟩ := h text htext
    dsimp only
    rw [ofText_byLineOnly]
    exact ofLines_of_bad hblank hbad 1 hline

/-- One bad file, and nothing is loaded. -/
theorem load_of_fault {path : String} {content : Except FileFault Bytes} {fault : InputFault}
    (h : byLineOnly.ofFile path content = .error fault) :
    ∀ {contents : List (String × Except FileFault Bytes)}, (path, content) ∈ contents →
    ∃ fault, byLineOnly.load contents = .error fault
  | (path', content') :: rest, hmem => by
    rw [load_cons]
    cases hfirst : byLineOnly.ofFile path' content' with
    | error fault => exact ⟨fault, rfl⟩
    | ok documents =>
      rcases List.mem_cons.1 hmem with heq | hmem
      · cases heq
        rw [h] at hfirst
        cases hfirst
      · obtain ⟨fault, hfault⟩ := load_of_fault h hmem
        exact ⟨fault, by rw [hfault]; rfl⟩

end InputSettings

namespace CommandLine

open LabelledDocument InputSettings

theorem outcome_loadDocuments {σ : Type} (files : FileAccess (StateM σ)) (command : ValidateCommand)
    {paths : List String} {contents : List (String × Except FileFault Bytes)} {s s₁ s₂ : σ}
    (hpaths : outcome (allPaths files command.inputs) s = (.ok paths, s₁))
    (hread : (paths.mapM (readFile files)).run s₁ = (contents, s₂)) :
    outcome (loadDocuments files command) s = match command.settings.load contents with
      | .ok documents => (.ok documents, s₂)
      | .error fault => (.error (.input fault), s₂) := by
  have hcontents : outcome (ExceptT.lift (paths.mapM (readFile files))) s₁ = (.ok contents, s₂) := by
    have hlift := outcome_lift (paths.mapM (readFile files)) s₁
    rw [hread] at hlift
    exact hlift
  unfold loadDocuments
  rw [outcome_bind_of_ok hpaths, outcome_bind_of_ok hcontents]
  cases command.settings.load contents with
  | error fault => rfl
  | ok documents => rfl

/-- **Reading line by line loses nothing**: files of values, one on a line, are read as these values
under the numbers of their lines, and with one line that is no value there are no documents. -/
theorem loadDocuments_byLine {σ : Type} (files : FileAccess (StateM σ)) {command : ValidateCommand}
    (hsettings : command.settings = ⟨true, none, none⟩) {paths : List String}
    {contents : List (String × Except FileFault Bytes)} {s s₁ s₂ : σ}
    (hpaths : outcome (allPaths files command.inputs) s = (.ok paths, s₁))
    (hread : (paths.mapM (readFile files)).run s₁ = (contents, s₂)) :
    (∀ fs : List LineFile, (∀ f ∈ fs, f.Sound) →
      contents = fs.map (fun f => (f.path, .ok (Bytes.ofText f.text))) →
      outcome (loadDocuments files command) s = (.ok (fs.flatMap (·.documents)), s₂)) ∧
    ∀ path bytes, (path, .ok bytes) ∈ contents → Spoilt bytes →
      ∃ fault, outcome (loadDocuments files command) s = (.error (.input fault), s₂) := by
  have hload := outcome_loadDocuments files command hpaths hread
  rw [hsettings] at hload
  constructor
  · rintro fs hsound rfl
    rw [hload, ← byLineOnly, load_byLineOnly hsound]
  · intro path bytes hmem hspoilt
    obtain ⟨_, hfile⟩ := ofFile_of_spoilt hspoilt path
    obtain ⟨fault, hfault⟩ := load_of_fault hfile hmem
    rw [hload, ← byLineOnly, hfault]
    exact ⟨fault, rfl⟩

/-- Two files: blank lines and a string with a line feed in the one, a carriage return before the
line feed and no end of the last line in the other. -/
def noteFiles : List LineFile :=
  [⟨"a.ndjson", [(.blank [], .feed), (.value (.string "x\ny"), .feed), (.blank [' ', '\t'], .feed),
      (.value (.object [("k", .array [.null, .number (.int (-7))])]), .feed)], none⟩,
    ⟨"b.ndjson", [(.value (.array []), .returnFeed)], some (.value (.bool true))⟩]

def noteCommand : ValidateCommand :=
  { ledgerCommand with inputs := ["a.ndjson", "b.ndjson"] }

theorem noteFiles_sound : ∀ f ∈ noteFiles, f.Sound := by
  have hblank : Text.isBlank ' ' = true ∧ Text.isBlank '\t' = true := ⟨rfl, rfl⟩
  refine List.forall_mem_cons.2 ⟨?_, List.forall_mem_singleton.2 ?_⟩
  · simp [LineFile.Sound, LineFile.contents, LineContent.Sound, hblank, Json.depth, Json.depthAll,
      Json.depthMembers, Json.DistinctNames, Json.DistinctNamesAll, Json.DistinctNamesMembers,
      Json.Fits, Json.FitsItems, Json.FitsMembers, JsonNumber.Fits, twoTo]
  · simp [LineFile.Sound, LineFile.contents, LineContent.Sound, Json.depth, Json.depthAll,
      Json.DistinctNames, Json.DistinctNamesAll, Json.Fits, Json.FitsItems]

/-- An array that is not closed on its line. -/
theorem brokenText_spoilt : Spoilt (Bytes.ofText "1\n[2\n") := by
  intro text htext
  rw [Source.toText?_ofBytes_ofText] at htext
  cases htext
  refine ⟨"[2", by decide +kernel, by decide +kernel, fun v hread => ?_⟩
  have hbroken : (Json.ofSource (Source.ofString "[2")).isOk = false := by decide +kernel
  rw [hread] at hbroken
  cases hbroken

/-- The notes are read; with a broken line in a third file nothing is. -/
theorem noteFiles_byLine :
    let notes := noteFiles.map fun f => (f.path, Bytes.ofText f.text)
    let spoilt := ("c.ndjson", Bytes.ofText "1\n[2\n") :: notes
    outcome (loadDocuments shelf noteCommand) notes =
      (.ok [⟨"a.ndjson:2", .string "x\ny"⟩,
        ⟨"a.ndjson:4", .object [("k", .array [.null, .number (.int (-7))])]⟩,
        ⟨"b.ndjson:1", .array []⟩, ⟨"b.ndjson:2", .bool true⟩], notes) ∧
    ∃ fault, outcome (loadDocuments shelf { noteCommand with inputs := ["a.ndjson", "c.ndjson"] })
      spoilt = (.error (.input fault), spoilt) := by
  intro notes spoilt
  have hsettings : noteCommand.settings = ⟨true, none, none⟩ := rfl
  have hnotes : (["a.ndjson", "b.ndjson"].mapM (readFile shelf)).run notes =
      (noteFiles.map fun f => (f.path, .ok (Bytes.ofText f.text)), notes) := rfl
  constructor
  · exact (loadDocuments_byLine shelf hsettings rfl hnotes).1 noteFiles noteFiles_sound rfl
  · have hsettings' : ({ noteCommand with inputs := ["a.ndjson", "c.ndjson"] } :
        ValidateCommand).settings = ⟨true, none, none⟩ := rfl
    have hspoilt : (["a.ndjson", "c.ndjson"].mapM (readFile shelf)).run spoilt =
        ([("a.ndjson", .ok (Bytes.ofText (noteFiles.headD ⟨"", [], none⟩).text)),
          ("c.ndjson", .ok (Bytes.ofText "1\n[2\n"))], spoilt) := rfl
    exact (loadDocuments_byLine shelf hsettings' rfl hspoilt).2 "c.ndjson" _
      (List.mem_cons_of_mem _ List.mem_cons_self) brokenText_spoilt

end CommandLine
end TypedJson
