import RecordPipeline.Proofs.Json.Reading
import RecordPipeline.Proofs.Value.Shape

/-!
Records that are written as JSON and read again. What is written of values without doubles is standard
JSON, so whatever decodes that gives the records back, provided that their objects list the fields in
key order and that their containers are within the levels of the decoder.
-/

namespace RecordPipeline

namespace Value

mutual

def toDocument : Value → Json.Document Int64
  | null => .null
  | boolean b => .boolean b
  | integer n => .number n
  | float _ => .null
  | string s => .string s
  | array items => .array (toDocuments items)
  | object fields => .object (toMembers fields)

def toDocuments : List Value → List (Json.Document Int64)
  | [] => []
  | item :: later => item.toDocument :: toDocuments later

def toMembers : List (String × Value) → List (String × Json.Document Int64)
  | [] => []
  | (key, item) :: later => (key, item.toDocument) :: toMembers later

end

theorem depthItems_toDocuments {items : List Value}
    (same : ∀ item ∈ items, item.toDocument.depth = item.depth) :
    Json.Document.depthItems (toDocuments items) = depthItems items := by
  induction items with
  | nil => rfl
  | cons item later ih =>
    rw [List.forall_mem_cons] at same
    rw [toDocuments, Json.Document.depthItems, depthItems, same.1, ih same.2]

theorem depthFields_toMembers {fields : List (String × Value)}
    (same : ∀ field ∈ fields, field.2.toDocument.depth = field.2.depth) :
    Json.Document.depthFields (toMembers fields) = depthFields fields := by
  induction fields with
  | nil => rfl
  | cons field later ih =>
    rw [List.forall_mem_cons] at same
    rw [toMembers, Json.Document.depthFields, depthFields, same.1, ih same.2]

theorem depth_toDocument (v : Value) : v.toDocument.depth = v.depth := by
  induction v using induction_on_parts with
  | array items ih =>
    rw [toDocument, Json.Document.depth, depth, depthItems_toDocuments ih]
  | object fields ih =>
    rw [toDocument, Json.Document.depth, depth, depthFields_toMembers ih]
  | other v noArray noObject =>
    cases v with
    | array items => exact absurd rfl (noArray items)
    | object fields => exact absurd rfl (noObject fields)
    | _ => rfl

end Value

namespace Json

open Value

theorem gap_break (layout : Layout) (level : Nat) (rest : List Char) :
    Gap (layout.break level ++ rest) rest := by
  cases layout with
  | compact => exact .none
  | pretty =>
    refine .blank (by decide) ?_
    induction 2 * level with
    | zero => exact .none
    | succ n ih => exact .blank (by decide) ih

theorem colon_append (layout : Layout) (rest : List Char) :
    ∃ text, layout.colon ++ rest = ':' :: text ∧ Gap text rest := by
  cases layout with
  | compact => exact ⟨rest, rfl, .none⟩
  | pretty => exact ⟨' ' :: rest, rfl, .blank (by decide) .none⟩

def Written (layout : Layout) (level : Nat) (v : Value) : Prop :=
  ∀ rest, Spells (.document v.toDocument) (write layout level v ++ rest) rest

section Containers

variable {layout : Layout} {level : Nat}

theorem spells_items {item : Value} {later : List Value}
    (written : ∀ v ∈ item :: later, Written layout (level + 1) v) (rest : List Char) :
    Spells (.items (toDocuments (item :: later)))
      (layout.break (level + 1) ++ (write layout (level + 1) item ++
        (writeItems layout level later ++ (layout.break level ++ ']' :: rest)))) rest := by
  induction later generalizing item with
  | nil =>
    rw [List.forall_mem_singleton] at written
    exact .lastItem (gap_break layout (level + 1) _) (written _) (gap_break layout level _)
  | cons next later ih =>
    rw [List.forall_mem_cons] at written
    have line : writeItems layout level (next :: later) ++ (layout.break level ++ ']' :: rest) =
        ',' :: (layout.break (level + 1) ++ (write layout (level + 1) next ++
          (writeItems layout level later ++ (layout.break level ++ ']' :: rest)))) := by
      simp [writeItems]
    rw [line]
    exact .moreItems (gap_break layout (level + 1) _) (written.1 _) .none (ih written.2)

theorem spells_field {key : String} {item : Value} (written : Written layout (level + 1) item)
    (rest : List Char) :
    Spells (.field key item.toDocument)
      (writeString key ++ (layout.colon ++ (write layout (level + 1) item ++ rest))) rest := by
  obtain ⟨text, colon, gap⟩ := colon_append layout (write layout (level + 1) item ++ rest)
  rw [colon, writeString_append]
  exact .field (letters_written key.toList _) .none gap (written rest)

theorem spells_fields {field : String × Value} {later : List (String × Value)}
    (written : ∀ f ∈ field :: later, Written layout (level + 1) f.2) (rest : List Char) :
    Spells (.fields (toMembers (field :: later)))
      (layout.break (level + 1) ++ (writeString field.1 ++ (layout.colon ++
        (write layout (level + 1) field.2 ++ (writeFields layout level later ++
          (layout.break level ++ '}' :: rest)))))) rest := by
  induction later generalizing field with
  | nil =>
    rw [List.forall_mem_singleton] at written
    exact .lastField (gap_break layout (level + 1) _) (spells_field written _)
      (gap_break layout level _)
  | cons next later ih =>
    rw [List.forall_mem_cons] at written
    have line : writeFields layout level (next :: later) ++ (layout.break level ++ '}' :: rest) =
        ',' :: (layout.break (level + 1) ++ (writeString next.1 ++ (layout.colon ++
          (write layout (level + 1) next.2 ++ (writeFields layout level later ++
            (layout.break level ++ '}' :: rest)))))) := by
      simp [writeFields]
    rw [line]
    exact .moreFields (gap_break layout (level + 1) _) (spells_field written.1 _) .none (ih written.2)

end Containers

theorem written_of_floatFree (layout : Layout) (level : Nat) {v : Value} (floatFree : v.FloatFree) :
    Written layout level v := by
  induction v using induction_on_parts generalizing level with
  | array items ih =>
    rw [FloatFree, floatFreeItems_iff] at floatFree
    intro rest
    cases items with
    | nil =>
      rw [write]
      exact .noItems .none
    | cons item later =>
      have items := spells_items (fun v member => ih v member (level + 1) (floatFree v member)) rest
      rw [write, toDocument]
      simpa only [List.append_assoc, List.cons_append, List.nil_append] using Spells.array items
  | object fields ih =>
    rw [FloatFree, floatFreeFields_iff] at floatFree
    intro rest
    cases fields with
    | nil =>
      rw [write]
      exact .noFields .none
    | cons field later =>
      have fields := spells_fields (fun f member => ih f member (level + 1) (floatFree f member)) rest
      rw [write, toDocument]
      simpa only [List.append_assoc, List.cons_append, List.nil_append] using Spells.object fields
  | other v noArray noObject =>
    intro rest
    cases v with
    | null =>
      rw [write]
      exact .nullWord
    | boolean b =>
      cases b with
      | true =>
        rw [write]
        exact .trueWord
      | false =>
        rw [write]
        exact .falseWord
    | integer n =>
      rw [write]
      exact .number
    | float x => exact floatFree.elim
    | string s =>
      rw [write, writeString_append]
      exact .string (letters_written s.toList rest)
    | array items => exact absurd rfl (noArray items)
    | object fields => exact absurd rfl (noObject fields)

/-- The documents behind the first, each on a line of its own. -/
def furtherLines (layout : Layout) (records : List Value) : List Char :=
  records.flatMap fun v => '\n' :: write layout 0 v

theorem toList_lines (layout : Layout) (v : Value) (later : List Value) :
    (String.intercalate "\n" ((v :: later).map (text layout))).toList =
      write layout 0 v ++ furtherLines layout later := by
  induction later generalizing v with
  | nil =>
    rw [List.map_singleton, String.intercalate_singleton, text, String.toList_ofList]
    exact (List.append_nil _).symm
  | cons w later ih =>
    rw [List.map_cons, List.map_cons, String.intercalate_cons_cons, ← List.map_cons,
      String.toList_append, String.toList_append, ih, text, String.toList_ofList]
    simp [furtherLines]

theorem spellsAll_lines (layout : Layout) {v : Value} {later : List Value}
    (floatFree : ∀ w ∈ v :: later, w.FloatFree) {front : List Char}
    (gap : Gap front (write layout 0 v ++ furtherLines layout later)) :
    SpellsAll (toDocuments (v :: later)) front := by
  induction later generalizing v front with
  | nil =>
    rw [List.forall_mem_singleton] at floatFree
    exact .document gap (written_of_floatFree layout 0 floatFree []) (.inl rfl) (.none .none)
  | cons w later ih =>
    rw [List.forall_mem_cons] at floatFree
    have line : furtherLines layout (w :: later) =
        '\n' :: (write layout 0 w ++ furtherLines layout later) := by simp [furtherLines]
    refine .document gap (written_of_floatFree layout 0 floatFree.1 _)
      (.inr ⟨_, _, line, by decide⟩) (ih floatFree.2 ?_)
    rw [line]
    exact .blank (by decide) .none

section Decoding

variable {decoder : Decoder} {integer : Int64 → decoder.Number} (standard : decoder.Standard integer)

theorem decodedItems_values {items : List Value}
    (same : ∀ item ∈ items, decoder.value (item.toDocument.decoded integer) = item) :
    decoder.values (Document.decodedItems integer (toDocuments items)) = items := by
  induction items with
  | nil => rfl
  | cons item later ih =>
    rw [List.forall_mem_cons] at same
    rw [toDocuments, Document.decodedItems, Decoder.values, same.1, ih same.2]

theorem keys_decodedFields (integer : Int64 → decoder.Number) (fields : List (String × Value)) :
    (Document.decodedFields integer (toMembers fields)).map Prod.fst = fields.map Prod.fst := by
  induction fields with
  | nil => rfl
  | cons field later ih =>
    rw [toMembers, Document.decodedFields, List.map_cons, List.map_cons, ih]

theorem decodedFields_values {fields : List (String × Value)}
    (same : ∀ field ∈ fields, decoder.value (field.2.toDocument.decoded integer) = field.2) :
    decoder.fieldValues (Document.decodedFields integer (toMembers fields)) = fields := by
  induction fields with
  | nil => rfl
  | cons field later ih =>
    rw [List.forall_mem_cons] at same
    rw [toMembers, Document.decodedFields, Decoder.fieldValues, same.1, ih same.2]

include standard

theorem value_decoded {v : Value} (canonical : v.Canonical) (floatFree : v.FloatFree) :
    decoder.value (v.toDocument.decoded integer) = v := by
  induction v using induction_on_parts with
  | array items ih =>
    rw [Canonical, canonicalItems_iff] at canonical
    rw [FloatFree, floatFreeItems_iff] at floatFree
    have items := decodedItems_values fun item member =>
      ih item member (canonical item member) (floatFree item member)
    rw [toDocument, Document.decoded, Decoder.value, items]
  | object fields ih =>
    rw [Canonical, canonicalFields_iff] at canonical
    rw [FloatFree, floatFreeFields_iff] at floatFree
    have values := decodedFields_values fun field member =>
      ih field member (canonical.2 field member) (floatFree field member)
    have sorted : Fields.Sorted (Document.decodedFields integer (toMembers fields)) := by
      have keys := List.pairwise_map.2 canonical.1
      rw [← keys_decodedFields integer] at keys
      exact List.pairwise_map.1 keys
    rw [toDocument, Document.decoded, Fields.ofList_of_sorted sorted, Decoder.value, values,
      Fields.ofList_of_sorted canonical.1]
  | other v noArray noObject =>
    cases v with
    | integer n =>
      rw [toDocument, Document.decoded, Decoder.value, Decoder.numberValue, standard.toInteger?]
    | float x => exact floatFree.elim
    | array items => exact absurd rfl (noArray items)
    | object fields => exact absurd rfl (noObject fields)
    | _ => rfl

theorem documents_lines (layout : Layout) {records : List Value}
    (floatFree : ∀ v ∈ records, v.FloatFree) (fits : ∀ v ∈ records, v.depth ≤ 127) :
    decoder.documents (String.intercalate "\n" (records.map (text layout))) =
      some (Document.decodedItems integer (toDocuments records)) := by
  refine standard.documents _ _ ?_ fun d member => ?_
  · cases records with
    | nil => exact .none .none
    | cons v later =>
      rw [toList_lines]
      exact spellsAll_lines layout floatFree .none
  · have among : ∀ (records : List Value) d, d ∈ toDocuments records →
        ∃ v ∈ records, d = v.toDocument := by
      intro records
      induction records with
      | nil => simp [toDocuments]
      | cons v later ih =>
        rw [toDocuments]
        simp only [List.mem_cons, exists_eq_or_imp]
        exact fun d found => found.imp_right (ih d)
    obtain ⟨v, found, rfl⟩ := among records d member
    rw [depth_toDocument]
    exact fits v found

/-- Values without doubles that are written as one array are read as the records again, and so they
are when each stands on a line of its own, unless there is just one and it is an array: then its
items are the records. -/
theorem readRecords_written (records : List Value) (canonical : ∀ v ∈ records, v.Canonical)
    (floatFree : ∀ v ∈ records, v.FloatFree) :
    ((Value.array records).depth ≤ 127 →
      ∀ layout, decoder.readRecords (streamText layout records) = some records) ∧
    ((∀ v ∈ records, v.depth ≤ 127) → ∀ layout,
      ((∀ items, records ≠ [.array items]) →
        decoder.readRecords (String.intercalate "\n" (records.map (text layout))) = some records) ∧
      ∀ items, records = [.array items] →
        decoder.readRecords (String.intercalate "\n" (records.map (text layout))) = some items) := by
  have values : decoder.values (Document.decodedItems integer (toDocuments records)) = records :=
    decodedItems_values fun v member =>
      value_decoded standard (canonical v member) (floatFree v member)
  constructor
  · intro fits layout
    have all : ∀ v ∈ [Value.array records], v.FloatFree ∧ v.depth ≤ 127 := by
      rw [List.forall_mem_singleton]
      rw [FloatFree, floatFreeItems_iff]
      exact ⟨floatFree, fits⟩
    have read := documents_lines standard layout (fun v member => (all v member).1)
      fun v member => (all v member).2
    rw [List.map_singleton, String.intercalate_singleton] at read
    rw [Decoder.readRecords, streamText, read, Option.map_some, toDocuments, toDocuments, toDocument,
      Document.decodedItems, Document.decodedItems, Document.decoded, Decoder.values, Decoder.values,
      Decoder.value, values]
  · intro fits layout
    rw [Decoder.readRecords, documents_lines standard layout floatFree fits, Option.map_some, values]
    refine ⟨fun several => ?_, ?_⟩
    · split
      · rename_i items
        exact absurd rfl (several items)
      · rfl
    · rintro items rfl
      rfl

end Decoding

/-- The least integer, a control behind a quote, and an array among others. -/
theorem readRecords_written_object :
    let records : List Value := [.object [("a", .array []), ("b", .string "\"\x85")],
      .integer (-9223372036854775808), .array [.null, .boolean true]]
    (∀ v ∈ records, v.Canonical) ∧ (∀ v ∈ records, v.FloatFree) ∧
    (∀ layout, Decoder.reference.readRecords (streamText layout records) = some records) ∧
    Decoder.reference.readRecords (String.intercalate "\n" (records.map (text .compact))) =
      some records := by
  intro records
  have sorted : Fields.Sorted [("a", Value.array []), ("b", Value.string "\"\x85")] :=
    List.pairwise_pair.2 (by decide)
  have canonical : ∀ v ∈ records, v.Canonical := by
    simp [records, Value.Canonical, Value.CanonicalItems, Value.CanonicalFields, sorted]
  have floatFree : ∀ v ∈ records, v.FloatFree := by
    simp [records, Value.FloatFree, Value.FloatFreeItems, Value.FloatFreeFields]
  obtain ⟨array, lines⟩ :=
    readRecords_written Decoder.reference_standard records canonical floatFree
  have depth : ∀ v ∈ records, v.depth ≤ 127 := by
    simp [records, Value.depth, Value.depthItems, Value.depthFields]
  refine ⟨canonical, floatFree, array (by decide), (lines depth .compact).1 fun items => ?_⟩
  simp [records]

end Json

end RecordPipeline
