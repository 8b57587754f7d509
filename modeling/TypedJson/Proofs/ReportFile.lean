import TypedJson.Proofs.Location
import TypedJson.Proofs.References
import TypedJson.Proofs.SchemaFile
/-!
# Reports and their files

The findings of a report are decoded one by one (`Finding.decode_toJson`).  The value that a finding
shows is a part of the value that was checked, so it is nested no deeper and no name in it is
repeated; the node that a finding shows is a node of the schema or of the reference, so its numbers
are words.  One thing is lost: a `null` that was found is written as a member, and the member is read
as if it were not there (`Finding.reread`).

What has to be shown is that each finding is legible: its value is nested no deeper than a
reader goes, its names are not repeated, the places on its path can be counted, and the
numbers in its node are words.  The value and the path are parts of the value that was
checked, by the lemmas on where findings are, and the node is one of a closed table.
-/
namespace TypedJson

/-! ## Whole values

Four properties of values are inherited by every part that a path leads to; `of_at?` states
that once.  A reader that keeps the last of several members of one name changes nothing where
no name is repeated. -/

namespace Json

mutual

/-- The places in every list of the value can be counted by words of sixty-four bits. -/
def Countable : Json → Prop
  | .array items => items.length ≤ twoTo 64 ∧ CountableItems items
  | .object members => CountableMembers members
  | _ => True

def CountableItems : List Json → Prop
  | [] => True
  | j :: rest => Countable j ∧ CountableItems rest

def CountableMembers : List (String × Json) → Prop
  | [] => True
  | (_, j) :: rest => Countable j ∧ CountableMembers rest

end

theorem of_at? {P : Json → Prop} (hitem : ∀ {items}, P (.array items) → ∀ j ∈ items, P j)
    (hmember : ∀ {members}, P (.object members) → ∀ m ∈ members, P m.2) :
    ∀ {path : List Segment} {v j : Json}, v.at? path = some j → P v → P j
  | [], v, j, h, hv => by
    cases h
    exact hv
  | s :: path, v, j, h, hv => by
    rw [at?_cons] at h
    obtain ⟨inner, hstep, hrest⟩ := Option.bind_eq_some_iff.1 h
    refine of_at? hitem hmember hrest ?_
    unfold step? at hstep
    split at hstep
    · exact hitem hv inner (List.mem_of_getElem? hstep)
    · exact hmember hv _ (mem_of_member? hstep)
    · cases hstep

variable {v j : Json} {path : List Segment}

theorem distinctNames_of_at? (h : v.at? path = some j) (hv : v.DistinctNames) : j.DistinctNames :=
  of_at? (P := DistinctNames) distinctNames_of_item (fun h => distinctNames_of_member h.2) h hv

theorem depth_of_at? {n : Nat} (h : v.at? path = some j) (hv : v.depth < n) : j.depth < n := by
  refine of_at? (P := fun j => j.depth < n) (fun {items} hitems => ?_) (fun {members} hmembers => ?_)
    h hv
  · exact forall_mem_of_cons (A := fun items => depthAll items < n) Nat.max_lt.1
      ((Nat.lt_succ_self _).trans hitems)
  · exact forall_mem_of_cons (A := fun members => depthMembers members < n) Nat.max_lt.1
      ((Nat.lt_succ_self _).trans hmembers)

theorem fits_of_at? (h : v.at? path = some j) (hv : v.Fits) : j.Fits :=
  of_at? (P := Fits) (forall_mem_of_cons (A := FitsItems) fun h => h)
    (forall_mem_of_cons (A := FitsMembers) fun h => h) h hv

theorem countable_of_at? (h : v.at? path = some j) (hv : v.Countable) : j.Countable :=
  of_at? (P := Countable) (fun h => forall_mem_of_cons (A := CountableItems) (fun h => h) h.2)
    (forall_mem_of_cons (A := CountableMembers) fun h => h) h hv

theorem index_lt_of_at? {i : Nat} (h : v.at? path = some j) (hv : v.Countable)
    (hi : .index i ∈ path) : i < twoTo 64 := by
  obtain ⟨front, back, rfl⟩ := List.append_of_mem hi
  rw [at?_append] at h
  obtain ⟨inner, hfront, hback⟩ := Option.bind_eq_some_iff.1 h
  rw [at?_cons] at hback
  obtain ⟨x, hstep, -⟩ := Option.bind_eq_some_iff.1 hback
  cases inner with
  | array items =>
    exact (List.getElem?_eq_some_iff.1 hstep).1.trans_le (countable_of_at? hfront hv).1
  | _ => cases hstep

/-! A reader that keeps the last of several members builds the object up one member at a time.
With distinct names each of them is put behind those before it. -/

theorem setMember_of_not_mem {α : Type} {name : String} {a : α} : ∀ {members : List (String × α)},
    name ∉ members.map (·.1) → setMember name a members = members ++ [(name, a)]
  | [], _ => rfl
  | (n, b) :: members, h => by
    rw [List.map_cons, List.mem_cons, not_or] at h
    rw [setMember, if_neg (Ne.symm h.1), setMember_of_not_mem h.2]
    rfl

theorem foldl_setMember {α : Type} : ∀ {members : List (String × α)} (kept : List (String × α)),
    ((kept ++ members).map (·.1)).Nodup →
    members.foldl (fun kept m => setMember m.1 m.2 kept) kept = kept ++ members
  | [], kept, _ => (List.append_nil kept).symm
  | m :: members, kept, h => by
    have hnew : m.1 ∉ kept.map (·.1) := by
      rw [List.map_append, List.map_cons, List.nodup_append] at h
      exact fun hmem => h.2.2 m.1 hmem m.1 List.mem_cons_self rfl
    have happend : kept ++ m :: members = (kept ++ [m]) ++ members := by
      rw [List.append_assoc]
      rfl
    rw [happend] at h ⊢
    rw [List.foldl_cons, setMember_of_not_mem hnew]
    exact foldl_setMember _ h

theorem keepLast_of_nodup {α : Type} {members : List (String × α)}
    (h : (members.map (·.1)).Nodup) : keepLast members = members :=
  foldl_setMember [] h

mutual

theorem keepLastDeep_eq : ∀ {v : Json}, v.DistinctNames → keepLastDeep v = v
  | .array items, h => by
    rw [keepLastDeep, keepLastItems_eq h]
  | .object members, h => by
    rw [keepLastDeep, keepLastMembers_eq h.2, keepLast_of_nodup h.1]
  | .null, _ | .bool _, _ | .number _, _ | .string _, _ => rfl

theorem keepLastItems_eq : ∀ {items : List Json}, DistinctNamesAll items → keepLastItems items = items
  | [], _ => rfl
  | j :: items, h => by
    rw [keepLastItems, keepLastDeep_eq h.1, keepLastItems_eq h.2]

theorem keepLastMembers_eq : ∀ {members : List (String × Json)}, DistinctNamesMembers members →
    keepLastMembers members = members
  | [], _ => rfl
  | (name, j) :: members, h => by
    rw [keepLastMembers, keepLastDeep_eq h.1, keepLastMembers_eq h.2]

end

end Json

namespace Decode

open Json

mutual

/-- A value is read from its document if it is not nested too deeply for where it stands. -/
theorem tree_ofJson : ∀ {v : Json} {path : JsonPath}, path.length + v.depth < depthLimit →
    tree path (.ofJson v) = .ok v
  | .array items, path, h => by
    have hroom : path.length + 1 + depthAll items < depthLimit := by
      rw [depth] at h
      omega
    have hitems := treeItems_ofJson path 0 hroom
    rw [Document.ofJson, tree, if_neg (by omega), hitems]
    rfl
  | .object members, path, h => by
    have hroom : path.length + 1 + depthMembers members < depthLimit := by
      rw [depth] at h
      omega
    have hmembers := treeMembers_ofJson path hroom
    rw [Document.ofJson, tree, if_neg (by omega), hmembers]
    rfl
  | .null, _, _ | .bool _, _, _ | .number _, _, _ | .string _, _, _ => rfl

theorem treeItems_ofJson : ∀ {items : List Json} (path : JsonPath) (i : Nat),
    path.length + 1 + depthAll items < depthLimit →
    treeItems path .closed i (Document.ofJsonItems items) = .ok items
  | [], _, _, _ => rfl
  | j :: items, path, i, h => by
    rw [depthAll] at h
    have hfirst : tree (.index i :: path) (.ofJson j) = .ok j :=
      tree_ofJson (by rw [List.length_cons]; omega)
    have hothers : treeItems path .closed (i + 1) (Document.ofJsonItems items) = .ok items :=
      treeItems_ofJson path (i + 1) (by omega)
    rw [Document.ofJsonItems, treeItems, hfirst, hothers]
    rfl

theorem treeMembers_ofJson : ∀ {members : List (String × Json)} (path : JsonPath),
    path.length + 1 + depthMembers members < depthLimit →
    treeMembers path .closed (Document.ofJsonMembers members) = .ok members
  | [], _, _ => rfl
  | (name, j) :: members, path, h => by
    rw [depthMembers] at h
    have hfirst : tree (.name name :: path) (.ofJson j) = .ok j :=
      tree_ofJson (by rw [List.length_cons]; omega)
    have hothers : treeMembers path .closed (Document.ofJsonMembers members) = .ok members :=
      treeMembers_ofJson path (by omega)
    rw [Document.ofJsonMembers, treeMembers, hfirst, hothers]
    rfl

end

theorem value_ofJson {v : Json} {path : JsonPath} (hnames : v.DistinctNames)
    (hdepth : path.length + v.depth < depthLimit) : value path (.ofJson v) = .ok v := by
  rw [value, tree_ofJson hdepth]
  exact congrArg Except.ok (keepLastDeep_eq hnames)

end Decode

/-! ## The parts of a report

The record of a finding is read field by field.  Only the value can come back changed, as an
optional member whose content is `null` is taken for one that is missing. -/

theorem Segment.undoes (s : Segment) : Decode.Undoes decode toJson s := by
  intro path
  have hsegment : ofJson? s.toJson = some s := by
    cases s with
    | index i =>
      show (if (0 : Int) ≤ (i : Int) then some (index (i : Int).toNat) else none) = _
      rw [if_pos (Int.natCast_nonneg i), Int.toNat_natCast]
    | key name => rfl
  have htree : Decode.tree path (.ofJson s.toJson) = .ok s.toJson := by
    cases s <;> rfl
  unfold decode
  rw [htree]
  dsimp only [bind, Except.bind]
  rw [hsegment]
  rfl

theorem FindingKind.undoes (k : FindingKind) : Decode.Undoes decode (fun k => .string k.name) k := by
  intro path
  cases k <;> rfl

namespace Finding

/-- What a member with the value is read as: a `null` is no value. -/
def kept : Option Json → Option Json
  | some .null => none
  | value => value

/-- The finding as it is read back. -/
def reread (f : Finding) : Finding := { f with value := kept f.value }

theorem kept_eq_iff {value : Option Json} : kept value = value ↔ value ≠ some .null := by
  rcases value with - | (_ | _ | _ | _ | _ | _) <;> simp [kept]

theorem reread_eq_iff {f : Finding} : f.reread = f ↔ f.value ≠ some .null := by
  rw [← kept_eq_iff]
  exact ⟨fun h => congrArg Finding.value h, fun h => by rw [reread, h]⟩

/-- The value and the node of the finding can be read where a report has them. -/
structure Legible (f : Finding) : Prop where
  names : ∀ j, f.value = some j → j.DistinctNames
  depth : ∀ j, f.value = some j → j.depth < 100
  typeInfo : ∀ n, f.typeInfo = some n → n.Words

theorem optional_value {j : Json} {path : JsonPath} (hnames : j.DistinctNames)
    (hdepth : path.length + j.depth < Decode.depthLimit) :
    Decode.optional Decode.value path (.ofJson j) = .ok (kept (some j)) := by
  have hvalue := Decode.value_ofJson hnames hdepth
  cases j with
  | null => rfl
  | _ => exact congrArg (Except.map some) hvalue

open Decode.Record in
/-- **A finding is read back**, up to a `null` that was found. -/
theorem decode_toJson {f : Finding} (h : f.Legible) {path : JsonPath}
    (hpath : path.length + 100 < Decode.depthLimit) :
    decode path (.ofJson f.toJson) = .ok f.reread := by
  have hnode : Reads record path 4 { f.reread with typeInfo := none }
      (Json.optionalMember "typeInfo" (f.typeInfo.map (·.toJson)) ++ []) [] f.reread :=
    .option rfl rfl (fun n hn => by
      show (SchemaNode.decode (.name "typeInfo" :: path) (.ofJson n.toJson)).map some = _
      rw [SchemaNode.undoes (h.typeInfo n hn)]
      rfl) rfl .done
  have hread : ∀ j, f.value = some j →
      Decode.optional Decode.value (.name "value" :: path) (.ofJson j) = .ok (kept f.value) := by
    intro j hj
    rw [hj]
    refine optional_value (h.names j hj) ?_
    have hdepth := h.depth j hj
    rw [List.length_cons]
    omega
  have hvalue : Reads record path 3 ⟨f.path, f.message, f.kind, none, none⟩
      (Json.optionalMember "value" f.value ++ _) [] f.reread :=
    .member rfl rfl hread (fun hnone => by rw [hnone]; rfl) hnode
  have hkind : Reads record path 2 ⟨f.path, f.message, .unsupported, none, none⟩
      (("errorType", .string f.kind.name) :: _) [2] f.reread :=
    .field rfl rfl (FindingKind.undoes f.kind _) hvalue
  have hmessage : Reads record path 1 ⟨f.path, "", .unsupported, none, none⟩
      (("message", .string f.message) :: _) [1, 2] f.reread :=
    .field rfl rfl rfl hkind
  have hsteps : Reads record path 0 ⟨[], "", .unsupported, none, none⟩
      (("path", .array (f.path.map (·.toJson))) :: _) [0, 1, 2] f.reread :=
    .field rfl rfl (Decode.listOf_undoes (fun s _ => Segment.undoes s) _ _) hmessage
  have hdecode := decode_of_reads hsteps fun _ hi => hi
  simp only [List.append_nil] at hdecode
  unfold decode toJson
  simp only [List.cons_append, List.nil_append]
  exact hdecode

theorem fits_toJson {f : Finding} (hpath : ∀ i, .index i ∈ f.path → i < twoTo 64)
    (hvalue : ∀ j, f.value = some j → j.Fits) (hinfo : ∀ n, f.typeInfo = some n → n.Words) :
    f.toJson.Fits := by
  have hsegment : ∀ s ∈ f.path, s.toJson.Fits := by
    intro s hs
    cases s with
    | key name => trivial
    | index i =>
      have hi : (i : Int) < (twoTo 64 : Nat) := by exact_mod_cast hpath i hs
      exact ⟨(Int.neg_nonpos_of_nonneg (Int.natCast_nonneg _)).trans (Int.natCast_nonneg i), hi⟩
  show Json.FitsMembers _
  refine Json.fitsMembers_append (Json.fitsMembers_append ?_ ?_) ?_
  · exact ⟨Json.fitsItems_map hsegment, trivial, trivial, trivial⟩
  · exact Json.fitsMembers_optional hvalue
  · refine Json.fitsMembers_optional fun j hj => ?_
    obtain ⟨n, hn, rfl⟩ := Option.map_eq_some_iff.1 hj
    exact SchemaNode.fits_toJson (hinfo n hn)

end Finding

namespace Report

/-- The report as it is read back. -/
def reread (r : Report) : Report := ⟨r.findings.map Finding.reread⟩

theorem reread_eq_iff {r : Report} : r.reread = r ↔ ∀ f ∈ r.findings, f.value ≠ some .null := by
  obtain ⟨findings⟩ := r
  have hmap : findings.map Finding.reread = findings ↔ ∀ f ∈ findings, f.reread = f := by
    have hid := List.map_inj_left (f := Finding.reread) (g := id) (l := findings)
    rwa [List.map_id] at hid
  rw [reread, Report.mk.injEq, hmap]
  exact forall₂_congr fun _ _ => Finding.reread_eq_iff

open Decode.Record in
theorem decode_toJson {r : Report} (h : ∀ f ∈ r.findings, f.Legible) :
    decode [] (.ofJson r.toJson) = .ok r.reread := by
  have hfinding : ∀ f ∈ r.findings, ∀ k,
      Finding.decode [.index k, .name "errors"] (.ofJson f.toJson) = .ok f.reread :=
    fun f hf _ => Finding.decode_toJson (h f hf) (show 2 + 100 < 128 by decide)
  have hread : Decode.list Finding.decode [.name "errors"]
      (.ofJson (.array (r.findings.map (·.toJson)))) = .ok (r.findings.map Finding.reread) :=
    Decode.listOf_map hfinding _
  have hfindings : Reads record [] 0 ⟨[]⟩ (Json.listMember "errors" (r.findings.map (·.toJson)) ++ [])
      [] r.reread :=
    .list rfl rfl hread (fun hnil => by rw [List.map_eq_nil_iff.1 hnil]; rfl) .done
  have hdecode := decode_of_reads hfindings fun i hi => absurd hi List.not_mem_nil
  rwa [List.append_nil] at hdecode

end Report

/-! ## What a check shows

The assumptions are about the inputs of the check: the size of the schema together with the
reference, which may bring along a node for each pair of brackets, and the depth and the
lengths of lists in the value. -/

theorem SchemaNode.words_placeholder : SchemaNode.placeholder.Words :=
  ⟨fun _ h => (by cases h), fun _ h => absurd h List.not_mem_nil, fun _ h => absurd h List.not_mem_nil,
    fun _ h => absurd h List.not_mem_nil⟩

theorem NodeTable.Closed.words {t : NodeTable} (h : t.Closed) (hsize : t.size ≤ twoTo 32) {id : NodeId}
    (hid : id.index < t.size) : (t.node id).Words where
  items _ hitem := (h.item hid hitem).trans_le hsize
  branches _ hb := (h.branch hid hb).trans_le hsize
  properties _ hp := (h.property hid hp).trans_le hsize
  indexes _ hx := ⟨(h.signature hid hx).1.trans_le hsize, (h.signature hid hx).2.trans_le hsize⟩

theorem Resolved.node_of_le {r : Resolved} {id : NodeId} (h : r.size ≤ id.index) :
    r.node id = .placeholder := by
  unfold size at h
  unfold node
  rw [if_neg (by omega), List.getD_eq_getElem?_getD, List.getElem?_eq_none (by omega)]
  rfl

namespace Report

variable {s : Schema} {reference : String} {v : Json}

theorem words_validate (hclosed : s.Closed) (hsize : s.size + reference.length ≤ twoTo 32)
    (hnames : v.DistinctNames) :
    ∀ f ∈ (s.validate reference v).findings, ∀ n, f.typeInfo = some n → n.Words := by
  intro f hf n hn
  unfold Schema.validate at hf
  split at hf
  · rename_i r hresolve
    obtain ⟨c, hc⟩ := (Check.checkValue_finds r.table v hnames [] true r.root f hf).shown
    obtain rfl : n = r.node c := Option.some.inj (hn.symm.trans hc)
    have hbrings := Reference.resolve?_brings hresolve
    have htable : r.table.size ≤ twoTo 32 := by
      have hlength := hbrings.length
      rw [String.length_toList] at hlength
      show r.schema.size + r.synthetic.length ≤ _
      rw [hbrings.schema]
      omega
    by_cases hc : c.index < r.table.size
    · exact (Reference.closed_of_resolve? hclosed hresolve).table.words htable hc
    · rw [Resolved.node_of_le (Nat.le_of_not_lt hc)]
      exact SchemaNode.words_placeholder
  · rw [List.mem_singleton.1 hf] at hn
    cases hn

theorem legible_validate (hclosed : s.Closed) (hsize : s.size + reference.length ≤ twoTo 32)
    (hnames : v.DistinctNames) (hdepth : v.depth < 100) :
    ∀ f ∈ (s.validate reference v).findings, f.Legible := by
  intro f hf
  have hlocates := locates_validate s reference hnames f hf
  have hat : ∀ j, f.value = some j → v.at? f.path = some j := by
    intro j hj
    rw [hj] at hlocates
    exact hlocates
  exact ⟨fun j hj => Json.distinctNames_of_at? (hat j hj) hnames,
    fun j hj => Json.depth_of_at? (hat j hj) hdepth, words_validate hclosed hsize hnames f hf⟩

theorem fits_toJson_validate (hclosed : s.Closed) (hsize : s.size + reference.length ≤ twoTo 32)
    (hnames : v.DistinctNames) (hfits : v.Fits) (hcountable : v.Countable) :
    (s.validate reference v).toJson.Fits := by
  refine Json.fitsMembers_list (Json.fitsItems_map fun f hf => ?_)
  have hlocates := locates_validate s reference hnames f hf
  refine Finding.fits_toJson (fun i hi => ?_) (fun j hj => ?_) (words_validate hclosed hsize hnames f hf)
  · cases hvalue : f.value with
    | some j =>
      rw [hvalue] at hlocates
      exact Json.index_lt_of_at? hlocates hcountable hi
    | none =>
      rw [hvalue] at hlocates
      obtain ⟨above, name, members, hpath, habove, -⟩ := hlocates
      rw [hpath, List.mem_append, List.mem_singleton] at hi
      rcases hi with hi | hi
      · exact Json.index_lt_of_at? habove hcountable hi
      · cases hi
  · rw [hj] at hlocates
    exact Json.fits_of_at? hlocates hfits

end Report

namespace Schema

/-- **The report of a check survives its file, up to a `null` that it shows**: what is read back
differs only in that a finding which shows a `null` shows nothing; so it is the same report exactly if
no finding shows a `null`. -/
theorem validate_reread (s : Schema) (hclosed : s.Closed) (reference : String)
    (hsize : s.size + reference.length ≤ twoTo 32) (v : Json) (hnames : v.DistinctNames)
    (hdepth : v.depth < 100) :
    Report.decode [] (.ofJson (s.validate reference v).toJson) = .ok (s.validate reference v).reread ∧
    (v.Fits → v.Countable → ∀ text, text = (s.validate reference v).toJson.compact ∨
      text = (s.validate reference v).toJson.pretty →
      Report.ofText text = .ok (s.validate reference v).reread) ∧
    ((s.validate reference v).reread = s.validate reference v ↔
      ∀ f ∈ (s.validate reference v).findings, f.value ≠ some .null) := by
  have hdecode := Report.decode_toJson (Report.legible_validate hclosed hsize hnames hdepth)
  refine ⟨hdecode, fun hfits hcountable text htext => loadText_eq_ok_iff.2 ?_, Report.reread_eq_iff⟩
  obtain ⟨hcompact, hpretty⟩ := Document.ofSource_printed
    (Report.fits_toJson_validate hclosed hsize hnames hfits hcountable)
  rcases htext with rfl | rfl
  · rw [hcompact]
    exact hdecode
  · rw [hpretty]
    exact hdecode

/-- A type whose only property has a name that could be a place in a list. -/
def slotSchema : Schema where
  types := [⟨0⟩]
  nodes := #[
    { SchemaNode.plain "Slots" with name := some "Slots", properties := [⟨"0", false, ⟨1⟩⟩] },
    { SchemaNode.plain "string[]" with arrayOf := some ⟨2⟩ },
    SchemaNode.plain "string"]

def emptySlots : Json := .array [.object [("0", .array [.string "a", .null, .bool true])]]

/-- The first finding shows a `null`, so it does not come back as it was; the second one does. -/
theorem slotSchema_reread :
    (slotSchema.validate "Slots[]" emptySlots).findings.map (fun f => (f.path, f.value.isSome)) =
      [([.index 0, .key "0", .index 1], true), ([.index 0, .key "0", .index 2], true)] ∧
    Report.ofText (slotSchema.validate "Slots[]" emptySlots).toJson.pretty =
      .ok (slotSchema.validate "Slots[]" emptySlots).reread ∧
    (slotSchema.validate "Slots[]" emptySlots).reread.findings.map (fun f => (f.path, f.value.isSome)) =
      [([.index 0, .key "0", .index 1], false), ([.index 0, .key "0", .index 2], true)] := by
  have hclosed : slotSchema.Closed := ⟨by decide, by decide⟩
  have hnames : emptySlots.DistinctNames :=
    ⟨⟨List.nodup_singleton _, ⟨trivial, trivial, trivial, trivial⟩, trivial⟩, trivial⟩
  have hcountable : emptySlots.Countable :=
    ⟨by decide, ⟨⟨by decide, trivial, trivial, trivial, trivial⟩, trivial⟩, trivial⟩
  have hreread := slotSchema.validate_reread hclosed "Slots[]" (by decide) emptySlots hnames (by decide)
  refine ⟨by decide +kernel, hreread.2.1 ?_ hcountable _ (.inr rfl), by decide +kernel⟩
  exact ⟨⟨⟨trivial, trivial, trivial, trivial⟩, trivial⟩, trivial⟩

/-- A `null` that stands where a string is expected is shown, and read back as absent. -/
theorem shown_null_forgotten : ∃ loaded,
    Report.ofText ((⟨[], #[]⟩ : Schema).validate "string" .null).toJson.compact = .ok loaded ∧
    loaded ≠ (⟨[], #[]⟩ : Schema).validate "string" .null := by
  have hshown : ((⟨[], #[]⟩ : Schema).validate "string" .null).findings.map (·.value.isSome) = [true] := by
    decide +kernel
  have hloaded : (Report.ofText ((⟨[], #[]⟩ : Schema).validate "string" .null).toJson.compact).toOption.map
      (·.findings.map (·.value.isSome)) = some [false] := by
    decide +kernel
  cases hload : Report.ofText ((⟨[], #[]⟩ : Schema).validate "string" .null).toJson.compact with
  | error e =>
    rw [hload] at hloaded
    cases hloaded
  | ok loaded =>
    refine ⟨loaded, rfl, fun heq => ?_⟩
    rw [hload, heq] at hloaded
    exact absurd (hshown.symm.trans (Option.some.inj hloaded)) (by decide)

end Schema

end TypedJson
