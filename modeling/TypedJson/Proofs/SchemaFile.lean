import TypedJson.Proofs.Acceptance
import TypedJson.Proofs.Finished
import TypedJson.Proofs.LiteralText
import TypedJson.Proofs.RecordReading
import TypedJson.Proofs.TextReading
/-!
# Schemas survive their files

The text of a schema is the document of the schema (`Document.ofSource_printed`), so what is left
is to decode that document: a field that was not written has its default value, and a literal is
read as it was (`SchemaNode.undoes`).  A file numbers the nodes by words of thirty-two bits.  The
numbers in a loaded schema are such words (`Schema.words_of_decodeFields`), and so are those in a
built schema if it has no more nodes than there are words (`Schema.Closed.words`).

The round trip has three parts: the text is scanned to its document, the document decodes to
the schema, and the schema is accepted, as all of its numbers are in range.  The first part
asks that no integer in the file has more than sixty-four bits, the second that the numbers
of nodes have thirty-two; both are read off the schema, built or loaded.
-/
namespace TypedJson

/-! ## The parts of a schema

For each record the decoder undoes the writer.  The literals are a set that is read by
inserting them one after the other; as they are all different, the set is the list. -/

theorem NodeId.undoes {id : NodeId} (h : id.index < twoTo 32) :
    Decode.Undoes NodeId.decode NodeId.toJson id := by
  intro path
  have hword : (0 : Int) ≤ (id.index : Int) ∧ (id.index : Int) < twoTo 32 :=
    ⟨Int.natCast_nonneg _, by exact_mod_cast h⟩
  change (Decode.word32 path (.number (.int id.index))).map NodeId.mk = _
  unfold Decode.word32
  dsimp only
  rw [if_pos hword]
  rfl

namespace LiteralSet

theorem ext_values {a b : LiteralSet} (h : a.values = b.values) : a = b := by
  obtain ⟨values, hnodup⟩ := a
  cases h
  rfl

theorem values_foldl_insert : ∀ (ls : List Literal) (s : LiteralSet), (s.values ++ ls).Nodup →
    (ls.foldl insert s).values = s.values ++ ls
  | [], s, _ => (List.append_nil _).symm
  | l :: ls, s, h => by
    have hnew : l ∉ s.values := fun hmem =>
      (List.nodup_append.1 h).2.2 l hmem l List.mem_cons_self rfl
    have hinsert : (s.insert l).values = s.values ++ [l] := by
      unfold insert
      rw [dif_neg hnew]
    rw [List.foldl_cons, values_foldl_insert ls, hinsert, List.append_assoc]
    · rfl
    · rw [hinsert, List.append_assoc]
      exact h

/-- Literals that are all different are kept as they come. -/
theorem ofList_values (s : LiteralSet) : ofList s.values = s :=
  ext_values (values_foldl_insert s.values empty s.nodup)

theorem decode_values (path : JsonPath) (s : LiteralSet) :
    decode path (.ofJson (.array (s.values.map (·.toJson)))) = .ok s := by
  have hundoes : ∀ l ∈ s.values, Decode.Undoes Literal.decode Literal.toJson l :=
    fun l _ path => Literal.decode_toJson path l
  have hlist := Decode.listOf_undoes hundoes "a set" path
  unfold decode
  rw [hlist]
  show Except.ok (ofList s.values) = _
  rw [ofList_values]

end LiteralSet

open Decode.Record in
theorem Property.undoes {p : Property} (h : p.type.index < twoTo 32) :
    Decode.Undoes decode toJson p := by
  intro path
  have htype : Reads record path 2 ⟨p.name, p.isOptional, ⟨0⟩⟩ [("type", p.type.toJson)] [2] p :=
    .field rfl rfl (NodeId.undoes h _) .done
  have hflag : Reads record path 1 ⟨p.name, false, ⟨0⟩⟩
      (Json.flagMember "isOptional" p.isOptional ++ [("type", p.type.toJson)]) [2] p :=
    .flag rfl rfl rfl htype
  have hname : Reads record path 0 ⟨"", false, ⟨0⟩⟩ (("name", .string p.name) ::
      (Json.flagMember "isOptional" p.isOptional ++ [("type", p.type.toJson)])) [0, 2] p :=
    .field rfl rfl rfl hflag
  exact decode_of_reads hname fun _ hi => hi

open Decode.Record in
theorem IndexSignature.undoes {x : IndexSignature} (hkey : x.keyType.index < twoTo 32)
    (hvalue : x.valueType.index < twoTo 32) : Decode.Undoes decode toJson x := by
  intro path
  have hlast : Reads record path 1 ⟨x.keyType, ⟨0⟩⟩ [("valueType", x.valueType.toJson)] [1] x :=
    .field rfl rfl (NodeId.undoes hvalue _) .done
  have hfirst : Reads record path 0 ⟨⟨0⟩, ⟨0⟩⟩
      [("keyType", x.keyType.toJson), ("valueType", x.valueType.toJson)] [0, 1] x :=
    .field rfl rfl (NodeId.undoes hkey _) hlast
  exact decode_of_reads hfirst fun _ hi => hi

namespace SchemaNode

/-- Every number in the node is a word of thirty-two bits. -/
structure Words (n : SchemaNode) : Prop where
  items : ∀ id, n.arrayOf = some id → id.index < twoTo 32
  branches : ∀ id ∈ n.unionOf, id.index < twoTo 32
  properties : ∀ p ∈ n.properties, p.type.index < twoTo 32
  indexes : ∀ x ∈ n.indexes, x.keyType.index < twoTo 32 ∧ x.valueType.index < twoTo 32

open Decode.Record in
/-- **A node is read back**: the fields that were left out have their default values. -/
theorem undoes {n : SchemaNode} (h : n.Words) : Decode.Undoes decode toJson n := by
  intro path
  obtain ⟨name, displayName, isNullable, isEnum, literals, item, branches, properties, indexes,
    location⟩ := n
  obtain ⟨hitem, hbranches, hproperties, hindexes⟩ := h
  have hlocation : Reads record path 9
      ⟨name, displayName, isNullable, isEnum, literals, item, branches, properties, indexes, none⟩
      (Json.optionalMember "sourceLocation" (location.map .string) ++ []) [] _ :=
    .option rfl rfl (fun _ _ => rfl) rfl .done
  have hsignatures : Reads record path 8
      ⟨name, displayName, isNullable, isEnum, literals, item, branches, properties, [], none⟩
      (Json.listMember "indexes" (indexes.map (·.toJson)) ++ _) [] _ :=
    .list rfl rfl (Decode.listOf_undoes (fun x hx => IndexSignature.undoes (hindexes x hx).1
      (hindexes x hx).2) _ _) (fun hnil => by rw [List.map_eq_nil_iff.1 hnil]) hlocation
  have hmembers : Reads record path 7
      ⟨name, displayName, isNullable, isEnum, literals, item, branches, [], [], none⟩
      (Json.listMember "properties" (properties.map (·.toJson)) ++ _) [] _ :=
    .list rfl rfl (Decode.listOf_undoes (fun p hp => Property.undoes (hproperties p hp)) _ _)
      (fun hnil => by rw [List.map_eq_nil_iff.1 hnil]) hsignatures
  have hunion : Reads record path 6
      ⟨name, displayName, isNullable, isEnum, literals, item, [], [], [], none⟩
      (Json.listMember "unionOf" (branches.map (·.toJson)) ++ _) [] _ :=
    .list rfl rfl (Decode.listOf_undoes (fun id hid => NodeId.undoes (hbranches id hid)) _ _)
      (fun hnil => by rw [List.map_eq_nil_iff.1 hnil]) hmembers
  have hitems : Reads record path 5
      ⟨name, displayName, isNullable, isEnum, literals, none, [], [], [], none⟩
      (Json.optionalMember "arrayOf" (item.map (·.toJson)) ++ _) [] _ :=
    .option rfl rfl (fun id hid => by
      show (NodeId.decode (.name "arrayOf" :: path) (.ofJson id.toJson)).map some = _
      rw [NodeId.undoes (hitem id hid)]
      rfl) rfl hunion
  have hliterals : Reads record path 4
      ⟨name, displayName, isNullable, isEnum, .empty, none, [], [], [], none⟩
      (Json.listMember "allowedValues" (literals.values.map (·.toJson)) ++ _) [] _ :=
    .list rfl rfl (LiteralSet.decode_values _ literals)
      (fun hnil => by rw [LiteralSet.ext_values (b := .empty) (List.map_eq_nil_iff.1 hnil)]) hitems
  have henum : Reads record path 3
      ⟨name, displayName, isNullable, false, .empty, none, [], [], [], none⟩
      (Json.flagMember "isEnum" isEnum ++ _) [] _ := .flag rfl rfl rfl hliterals
  have hnullable : Reads record path 2
      ⟨name, displayName, false, false, .empty, none, [], [], [], none⟩
      (Json.flagMember "isNullable" isNullable ++ _) [] _ := .flag rfl rfl rfl henum
  have hdisplay : Reads record path 1
      ⟨name, "", false, false, .empty, none, [], [], [], none⟩
      (("displayName", .string displayName) :: _) [1] _ := .field rfl rfl rfl hnullable
  have hname : Reads record path 0 .placeholder
      (Json.optionalMember "name" (name.map .string) ++ _) [1] _ :=
    .option rfl rfl (fun _ _ => rfl) rfl hdisplay
  have hdecode := decode_of_reads hname fun _ hi => hi
  simp only [List.append_nil] at hdecode
  unfold decode toJson
  simp only [List.append_assoc, List.cons_append, List.nil_append]
  exact hdecode

end SchemaNode

namespace Schema

/-- Every number in the schema is a word of thirty-two bits. -/
structure Words (s : Schema) : Prop where
  types : ∀ id ∈ s.types, id.index < twoTo 32
  nodes : ∀ n ∈ s.nodes, n.Words

open Decode.Record in
theorem decodeFields_toJson {s : Schema} (h : s.Words) (path : JsonPath) :
    decodeFields path (.ofJson s.toJson) = .ok s := by
  have hnodes : Reads record path 1 ⟨s.types, #[]⟩
      [("nodes", .array (s.nodes.toList.map (·.toJson)))] [1] s :=
    .field rfl rfl (Decode.listOf_undoes (fun n hn =>
      SchemaNode.undoes (h.nodes n (Array.mem_toList_iff.1 hn))) _ _) .done
  have htypes : Reads record path 0 ⟨[], #[]⟩ (("types", .array (s.types.map (·.toJson))) :: _)
      [0, 1] s :=
    .field rfl rfl (Decode.listOf_undoes (fun id hid => NodeId.undoes (h.types id hid)) _ _) hnodes
  exact decode_of_reads htypes fun i hi => List.mem_cons_of_mem 0 hi

end Schema

/-! ## Numbers read from a file

A loaded number was decoded as a word, so it is one.  The bound is collected from the fields
by `decode_preserves`. -/

theorem NodeId.lt_of_decode {path : JsonPath} {d : Document} {id : NodeId}
    (h : decode path d = .ok id) : id.index < twoTo 32 := by
  obtain ⟨n, hn, rfl⟩ := Decode.map_eq_ok h
  exact Decode.lt_of_word32 hn

theorem Property.lt_of_decode {path : JsonPath} {d : Document} {p : Property}
    (h : decode path d = .ok p) : p.type.index < twoTo 32 := by
  refine Decode.Record.decode_preserves (P := fun p => p.type.index < twoTo 32) ?_
    (Nat.pow_pos (by decide)) h
  intro i path d put hput s hs
  match i, hput with
  | 0, hput =>
    obtain ⟨v, -, rfl⟩ := Decode.map_eq_ok hput
    exact hs
  | 1, hput =>
    obtain ⟨v, -, rfl⟩ := Decode.map_eq_ok hput
    exact hs
  | _ + 2, hput =>
    obtain ⟨v, hv, rfl⟩ := Decode.map_eq_ok hput
    exact NodeId.lt_of_decode hv

theorem IndexSignature.lt_of_decode {path : JsonPath} {d : Document} {x : IndexSignature}
    (h : decode path d = .ok x) :
    x.keyType.index < twoTo 32 ∧ x.valueType.index < twoTo 32 := by
  refine Decode.Record.decode_preserves
    (P := fun x => x.keyType.index < twoTo 32 ∧ x.valueType.index < twoTo 32) ?_
    ⟨Nat.pow_pos (by decide), Nat.pow_pos (by decide)⟩ h
  intro i path d put hput s hs
  match i, hput with
  | 0, hput =>
    obtain ⟨v, hv, rfl⟩ := Decode.map_eq_ok hput
    exact ⟨NodeId.lt_of_decode hv, hs.2⟩
  | _ + 1, hput =>
    obtain ⟨v, hv, rfl⟩ := Decode.map_eq_ok hput
    exact ⟨hs.1, NodeId.lt_of_decode hv⟩

theorem SchemaNode.words_of_decode {path : JsonPath} {d : Document} {n : SchemaNode}
    (h : decode path d = .ok n) : n.Words := by
  refine Decode.Record.decode_preserves (P := Words) ?_ ?_ h
  · intro i path d put hput s hs
    match i, hput with
    | 0, hput | 1, hput | 2, hput | 3, hput | 4, hput | _ + 9, hput =>
      obtain ⟨v, -, rfl⟩ := Decode.map_eq_ok hput
      exact ⟨hs.items, hs.branches, hs.properties, hs.indexes⟩
    | 5, hput =>
      obtain ⟨v, hv, rfl⟩ := Decode.map_eq_ok hput
      exact ⟨Decode.forall_optional NodeId.lt_of_decode hv, hs.branches, hs.properties, hs.indexes⟩
    | 6, hput =>
      obtain ⟨v, hv, rfl⟩ := Decode.map_eq_ok hput
      exact ⟨hs.items, Decode.forall_listOf NodeId.lt_of_decode hv, hs.properties, hs.indexes⟩
    | 7, hput =>
      obtain ⟨v, hv, rfl⟩ := Decode.map_eq_ok hput
      exact ⟨hs.items, hs.branches, Decode.forall_listOf Property.lt_of_decode hv, hs.indexes⟩
    | 8, hput =>
      obtain ⟨v, hv, rfl⟩ := Decode.map_eq_ok hput
      exact ⟨hs.items, hs.branches, hs.properties,
        Decode.forall_listOf IndexSignature.lt_of_decode hv⟩
  · refine ⟨?_, ?_, ?_, ?_⟩
    · rintro id ⟨⟩
    all_goals exact fun x hx => absurd hx List.not_mem_nil

namespace Schema

theorem words_of_decodeFields {path : JsonPath} {d : Document} {s : Schema}
    (h : decodeFields path d = .ok s) : s.Words := by
  refine Decode.Record.decode_preserves (P := Words) ?_ ?_ h
  · intro i path d put hput s hs
    match i, hput with
    | 0, hput =>
      obtain ⟨v, hv, rfl⟩ := Decode.map_eq_ok hput
      exact ⟨Decode.forall_listOf NodeId.lt_of_decode hv, hs.nodes⟩
    | _ + 1, hput =>
      obtain ⟨v, hv, rfl⟩ := Decode.map_eq_ok hput
      refine ⟨hs.types, fun n hn => ?_⟩
      exact Decode.forall_listOf SchemaNode.words_of_decode hv n (by simpa using hn)
  · exact ⟨fun id hid => absurd hid List.not_mem_nil, fun n hn => absurd hn (Array.not_mem_empty n)⟩

theorem Closed.words {s : Schema} (h : s.Closed) (hsize : s.size ≤ twoTo 32) : s.Words := by
  obtain ⟨htypes, hitems, hbranches, hproperties, hindexes⟩ := closed_iff_inRange.1 h
  refine ⟨fun id hid => (htypes id hid).trans_le hsize, fun n hn => ⟨?_, ?_, ?_, ?_⟩⟩
  · exact fun id hid => (hitems n hn id hid).trans_le hsize
  · exact fun id hid => (hbranches n hn id hid).trans_le hsize
  · exact fun p hp => (hproperties n hn p hp).trans_le hsize
  · exact fun x hx => ⟨(hindexes n hn x hx).1.trans_le hsize, (hindexes n hn x hx).2.trans_le hsize⟩

end Schema

/-! ## The text of a schema

A schema that was built is closed because its pass left no open references, and a loaded one
because it was accepted. -/

namespace Json

theorem fitsItems_map {α : Type} {write : α → Json} : ∀ {as : List α},
    (∀ a ∈ as, Fits (write a)) → FitsItems (as.map write)
  | [], _ => trivial
  | a :: _, h => ⟨h a List.mem_cons_self, fitsItems_map fun x hx => h x (List.mem_cons_of_mem a hx)⟩

theorem fitsMembers_append : ∀ {ms ns : List (String × Json)}, FitsMembers ms → FitsMembers ns →
    FitsMembers (ms ++ ns)
  | [], _, _, h => h
  | (_, _) :: _, _, h, hns => ⟨h.1, fitsMembers_append h.2 hns⟩

theorem fitsMembers_optional {name : String} {value : Option Json}
    (h : ∀ j, value = some j → Fits j) : FitsMembers (optionalMember name value) := by
  cases value with
  | none => trivial
  | some j => exact ⟨h j rfl, trivial⟩

theorem fitsMembers_flag (name : String) (value : Bool) : FitsMembers (flagMember name value) := by
  cases value
  · trivial
  · exact ⟨trivial, trivial⟩

theorem fitsMembers_list {name : String} {items : List Json} (h : FitsItems items) :
    FitsMembers (listMember name items) := by
  cases items with
  | nil => trivial
  | cons j items => exact ⟨h, trivial⟩

end Json

open Json

theorem NodeId.fits_toJson {id : NodeId} (h : id.index < twoTo 32) : id.toJson.Fits := by
  have h63 : ((twoTo 63 : Nat) : Int) = 9223372036854775808 := rfl
  have h64 : ((twoTo 64 : Nat) : Int) = 18446744073709551616 := rfl
  have h32 : twoTo 32 = 4294967296 := rfl
  show -((twoTo 63 : Nat) : Int) ≤ (id.index : Int) ∧ (id.index : Int) < (twoTo 64 : Nat)
  rw [h63, h64]
  omega

theorem Literal.fits_toJson (l : Literal) : l.toJson.Fits := by
  cases l with
  | bool b => trivial
  | str s => trivial
  | num d hplain => exact fits_numberToJson d

theorem Property.fits_toJson {p : Property} (h : p.type.index < twoTo 32) : p.toJson.Fits :=
  fitsMembers_append (fitsMembers_append ⟨trivial, trivial⟩ (fitsMembers_flag _ _))
    ⟨NodeId.fits_toJson h, trivial⟩

theorem IndexSignature.fits_toJson {x : IndexSignature}
    (h : x.keyType.index < twoTo 32 ∧ x.valueType.index < twoTo 32) : x.toJson.Fits :=
  ⟨NodeId.fits_toJson h.1, NodeId.fits_toJson h.2, trivial⟩

theorem SchemaNode.fits_toJson {n : SchemaNode} (h : n.Words) : n.toJson.Fits := by
  have hstring : ∀ o : Option String, ∀ j, o.map Json.string = some j → Fits j := by
    rintro (_ | s) j ⟨⟩
    trivial
  have hitem : ∀ j, n.arrayOf.map (·.toJson) = some j → Fits j := by
    intro j hj
    obtain ⟨id, hid, rfl⟩ := Option.map_eq_some_iff.1 hj
    exact NodeId.fits_toJson (h.items id hid)
  show FitsMembers _
  refine fitsMembers_append (fitsMembers_append (fitsMembers_append (fitsMembers_append
    (fitsMembers_append (fitsMembers_append (fitsMembers_append (fitsMembers_append
    (fitsMembers_append ?_ ?_) ?_) ?_) ?_) ?_) ?_) ?_) ?_) ?_
  · exact fitsMembers_optional (hstring n.name)
  · exact ⟨trivial, trivial⟩
  · exact fitsMembers_flag _ _
  · exact fitsMembers_flag _ _
  · exact fitsMembers_list (fitsItems_map fun l _ => Literal.fits_toJson l)
  · exact fitsMembers_optional hitem
  · exact fitsMembers_list (fitsItems_map fun id hid => NodeId.fits_toJson (h.branches id hid))
  · exact fitsMembers_list (fitsItems_map fun p hp => Property.fits_toJson (h.properties p hp))
  · exact fitsMembers_list (fitsItems_map fun x hx => IndexSignature.fits_toJson (h.indexes x hx))
  · exact fitsMembers_optional (hstring n.sourceLocation)

namespace Schema

variable {s : Schema}

theorem fits_toJson (h : s.Words) : s.toJson.Fits :=
  ⟨fitsItems_map fun id hid => NodeId.fits_toJson (h.types id hid),
    fitsItems_map fun n hn => SchemaNode.fits_toJson (h.nodes n (Array.mem_toList_iff.1 hn)), trivial⟩

/-- **A closed schema whose numbers are words is read back from its text**, on one line or on
many. -/
theorem ofText_toJson (hclosed : s.Closed) (hwords : s.Words) :
    ofText s.toJson.compact = .ok s ∧ ofText s.toJson.pretty = .ok s := by
  have hdecode := decode_eq_ok_iff.2 ⟨decodeFields_toJson hwords [], hclosed⟩
  obtain ⟨hcompact, hpretty⟩ := Document.ofSource_printed (fits_toJson hwords)
  refine ⟨loadText_eq_ok_iff.2 ?_, loadText_eq_ok_iff.2 ?_⟩
  · rw [hcompact]
    exact hdecode
  · rw [hpretty]
    exact hdecode

/-- A schema that was built from the declarations of a universe, whatever was asked of them
before, or loaded from a text.  A built schema has no more nodes than there are words of thirty-two
bits to number them. -/
inductive Produced : Schema → Prop
  | built {u : Universe} {types : Interner} {fuel : Nat} {s : Schema}
      (hreach : u.Reaches u.start types) (h : u.schemaFrom? fuel types = some s)
      (hsize : s.size ≤ twoTo 32) : Produced s
  | loaded {text : String} {s : Schema} (h : ofText text = .ok s) : Produced s

theorem lt_of_mem_types {nodes : Array SchemaNode} {id : NodeId} (h : id ∈ (ofNodes nodes).types) :
    id.index < nodes.size := by
  obtain ⟨⟨name, id'⟩, hmem, rfl⟩ := List.mem_map.1 h
  rw [List.mem_mergeSort, List.mem_filterMap] at hmem
  obtain ⟨⟨n, i⟩, hn, hname⟩ := hmem
  obtain ⟨name', -, heq⟩ := Option.map_eq_some_iff.1 hname
  cases heq
  have hget := List.mk_mem_zipIdx_iff_getElem?.1 hn
  rw [Array.getElem?_toList] at hget
  exact (Array.getElem?_eq_some_iff.1 hget).1

/-- A built schema refers to its own nodes only. -/
theorem closed_of_schemaFrom? {u : Universe} {types : Interner} (hreach : u.Reaches u.start types)
    {fuel : Nat} (h : u.schemaFrom? fuel types = some s) : s.Closed := by
  rw [u.schemaFrom?_eq] at h
  obtain ⟨tr, htr, rfl⟩ := Option.map_eq_some_iff.1 h
  obtain ⟨hcoherent, hcomplete⟩ := (Universe.pass_of_tracedSchemaFrom? hreach htr).coherent
  exact ⟨fun id hid => lt_of_mem_types hid, hcoherent.table_closed hcomplete⟩

/-- **Schema files round-trip.**  The text of a schema that was built or loaded, on one line or on
many, is accepted, and what is loaded from it has the same list of types and the same nodes; so it
says the same of every value by every reference. -/
theorem round_trip (h : Produced s) {text : String}
    (htext : text = s.toJson.compact ∨ text = s.toJson.pretty) :
    ∃ loaded, ofText text = .ok loaded ∧ loaded.types = s.types ∧ loaded.nodes = s.nodes ∧
      ∀ reference value, loaded.validate reference value = s.validate reference value := by
  have hread : ofText s.toJson.compact = .ok s ∧ ofText s.toJson.pretty = .ok s := by
    cases h with
    | built hreach hbuilt hsize =>
      have hclosed := closed_of_schemaFrom? hreach hbuilt
      exact ofText_toJson hclosed (hclosed.words hsize)
    | loaded hload =>
      obtain ⟨hfields, hclosed⟩ := ofText_eq_ok_iff.1 hload
      exact ofText_toJson hclosed (words_of_decodeFields (loadText_eq_ok_iff.1 hfields))
  refine ⟨s, ?_, rfl, rfl, fun _ _ => rfl⟩
  rcases htext with rfl | rfl
  · exact hread.1
  · exact hread.2

/-- A node that admits the numbers at the two ends of the integers of sixty-four bits, two
numbers that are no integers, and a string with a control character. -/
def boundaryText : String :=
  "\x7b\"types\":[],\"nodes\":[\x7b\"displayName\":\"Edge\",\"allowedValues\":" ++
    "[9223372036854775807,-9223372036854775808,0.1,1e+300,\"\\u0001\"]\x7d]\x7d"

/-- The first of the literals is the double next to the number written; written again it is the
same text. -/
theorem boundaryText_round_trip : ∃ s, ofText boundaryText = .ok s ∧
    s.toJson.compact = boundaryText ∧
    ∃ loaded, ofText s.toJson.pretty = .ok loaded ∧ loaded.types = s.types ∧
      loaded.nodes = s.nodes ∧ ∀ reference value,
        loaded.validate reference value = s.validate reference value := by
  have hsome : (ofText boundaryText).toOption.map (·.toJson.compact) = some boundaryText := by
    decide +kernel
  cases hload : ofText boundaryText with
  | error e =>
    rw [hload] at hsome
    cases hsome
  | ok s =>
    rw [hload] at hsome
    exact ⟨s, rfl, Option.some.inj hsome, round_trip (.loaded hload) (.inr rfl)⟩

end Schema

end TypedJson
