import RecordPipeline.Proofs.Json.Scalars

/-!
The reader decodes standard JSON. Every item of a container and every document takes a character, so
the text is a bound for how many of them there are.
-/

namespace RecordPipeline.Json

open Text

variable {text rest : List Char} {c : Char}

theorem isGap_of_mem (blank : c ∈ [' ', '\n', '\t', '\r']) : isGap c = true := by
  simp only [List.mem_cons, List.not_mem_nil, or_false] at blank
  rcases blank with rfl | rfl | rfl | rfl <;> rfl

theorem skipGap_cons (noGap : isGap c = false) : skipGap (c :: text) = c :: text :=
  List.dropWhile_cons_of_neg (ne_true_of_eq_false noGap)

theorem Gap.skipGap_eq (gap : Gap text rest) : skipGap text = skipGap rest := by
  induction gap with
  | none => rfl
  | blank isBlank _ ih => rwa [skipGap, List.dropWhile_cons_of_pos (isGap_of_mem isBlank)]

theorem Gap.skipGap_cons (gap : Gap text (c :: rest)) (noGap : isGap c = false) :
    skipGap text = c :: rest :=
  gap.skipGap_eq.trans (Json.skipGap_cons noGap)

theorem endsNumber_of_gap (blank : c ∈ [' ', '\n', '\t', '\r']) : endsNumber (c :: rest) = true := by
  simp only [List.mem_cons, List.not_mem_nil, or_false] at blank
  rcases blank with rfl | rfl | rfl | rfl <;> rfl

theorem Gap.endsNumber (gap : Gap text rest) (ends : endsNumber rest = true) :
    endsNumber text = true := by
  cases gap with
  | none => exact ends
  | blank isBlank _ => exact endsNumber_of_gap isBlank

theorem Gap.length_le (gap : Gap text rest) : rest.length ≤ text.length := by
  induction gap with
  | none => exact Nat.le_refl _
  | blank _ _ ih => exact Nat.le_succ_of_le ih

theorem Letters.length_lt {s : List Char} (letters : Letters s text rest) :
    rest.length < text.length := by
  induction letters with
  | close => exact Nat.lt_succ_self _
  | plain _ _ _ _ ih | escape _ _ ih | unit _ _ ih | pair _ _ _ _ _ _ ih =>
    simp only [List.length_cons]
    omega

theorem Spells.length_lt {phrase : Phrase} (spells : Spells phrase text rest) :
    rest.length < text.length := by
  induction spells with
  | nullWord | trueWord | falseWord =>
    simp only [List.length_cons]
    omega
  | number =>
    rename_i n _
    obtain ⟨c, digits, spelled, -⟩ := toString_starts n.toInt
    rw [spelled, List.cons_append, List.length_cons, List.length_append]
    omega
  | string letters =>
    have := letters.length_lt
    rw [List.length_cons]
    omega
  | noItems gap | noFields gap =>
    have := gap.length_le
    simp only [List.length_cons] at this ⊢
    omega
  | array _ ih | object _ ih => exact Nat.lt_succ_of_lt ih
  | field letters before after _ ih =>
    have := letters.length_lt
    have := before.length_le
    have := after.length_le
    simp only [List.length_cons] at *
    omega
  | lastItem before _ after ih | lastField before _ after ih =>
    have := before.length_le
    have := after.length_le
    simp only [List.length_cons] at *
    omega
  | moreItems before _ after _ ih others | moreFields before _ after _ ih others =>
    have := before.length_le
    have := after.length_le
    simp only [List.length_cons] at *
    omega

theorem SpellsAll.length_le {ds : List (Document Int64)} (spells : SpellsAll ds text) :
    ds.length ≤ text.length := by
  induction spells with
  | none => exact Nat.zero_le _
  | document before value _ _ ih =>
    have := before.length_le
    have := value.length_lt
    rw [List.length_cons]
    omega

/-- The items of a container are read, the first at once and the others behind their commas. -/
structure ReadsMembers {α : Type} (close : Char) (item : Reader α) (xs : List α)
    (text rest : List Char) : Prop where
  first : ∃ x others c more behind, xs = x :: others ∧ skipGap text = c :: more ∧ c ≠ close ∧
    item (c :: more) = some (x, behind) ∧ behind.length < text.length ∧
    others.length < behind.length ∧
    ∀ bound : List Char, others.length < bound.length →
      readMore close item bound behind = some (others, rest)

structure ReadsItem {α : Type} (close : Char) (item : Reader α) (x : α) (text rest : List Char) :
    Prop where
  opens : ∃ c more, text = c :: more ∧ isGap c = false ∧ c ≠ close
  reads : item text = some (x, rest)
  shorter : rest.length < text.length

section Members

variable {α : Type} {close : Char} {item : Reader α} {x : α} {xs : List α}
  {start behind others : List Char}

theorem ReadsItem.reads_front (read : ReadsItem close item x start behind) (before : Gap text start) :
    ∃ c more, skipGap text = c :: more ∧ c ≠ close ∧ item (c :: more) = some (x, behind) ∧
      behind.length < text.length := by
  obtain ⟨c, more, rfl, noGap, noClose⟩ := read.opens
  exact ⟨c, more, before.skipGap_cons noGap, noClose, read.reads,
    Nat.lt_of_lt_of_le read.shorter before.length_le⟩

theorem ReadsItem.last (read : ReadsItem close item x start behind) (before : Gap text start)
    (after : Gap behind (close :: rest)) (noGap : isGap close = false) :
    ReadsMembers close item [x] text rest := by
  obtain ⟨c, more, skipped, noClose, reads, shorter⟩ := read.reads_front before
  have filled : ([] : List α).length < behind.length := by
    have := after.length_le
    simp only [List.length_cons, List.length_nil] at this ⊢
    omega
  refine ⟨x, [], c, more, behind, rfl, skipped, noClose, reads, shorter, filled,
    fun bound enough => ?_⟩
  cases bound with
  | nil => cases enough
  | cons _ bound =>
    rw [readMore, after.skipGap_cons noGap]
    exact if_pos rfl

theorem ReadsItem.more (read : ReadsItem close item x start behind) (before : Gap text start)
    (after : Gap behind (',' :: others)) (noComma : close ≠ ',')
    (members : ReadsMembers close item xs others rest) : ReadsMembers close item (x :: xs) text rest := by
  obtain ⟨c, _, skipped, noClose, reads, shorter⟩ := read.reads_front before
  obtain ⟨y, ys, d, _, behind', rfl, skipped', _, reads', shorter', filled, later⟩ := members.first
  have longer := after.length_le
  rw [List.length_cons] at longer
  refine ⟨x, y :: ys, c, _, behind, rfl, skipped, noClose, reads, shorter, ?_, fun bound enough => ?_⟩
  · rw [List.length_cons]
    omega
  · cases bound with
    | nil => cases enough
    | cons _ bound =>
      rw [readMore, after.skipGap_cons (by decide)]
      simp [noComma.symm, skipped', reads', later bound (Nat.lt_of_succ_lt_succ enough)]

theorem ReadsMembers.readSequence (members : ReadsMembers close item xs text rest) :
    readSequence close item text = some (xs, rest) := by
  obtain ⟨x, others, c, more, behind, rfl, skipped, noClose, reads, _, filled, later⟩ := members.first
  simp [Json.readSequence, skipped, expect, noClose, reads, later behind filled]

theorem readSequence_nil (gap : Gap text (close :: rest)) (noGap : isGap close = false) :
    readSequence close item text = some ([], rest) := by
  simp [readSequence, gap.skipGap_cons noGap, expect]

end Members

theorem readValue_scalar (levels : Nat) (noArray : c ≠ '[') (noObject : c ≠ '{') (text : List Char) :
    readValue levels (c :: text) = readScalar (c :: text) := by
  cases levels with
  | zero => rfl
  | succ levels =>
    rw [readValue]
    dsimp only
    split
    · rename_i same
      exact absurd (List.head_eq_of_cons_eq same) noArray
    · rename_i same
      exact absurd (List.head_eq_of_cons_eq same) noObject
    · rfl

theorem readValue_number (levels : Nat) (n : Int64) (ends : endsNumber rest = true) :
    readValue levels ((toString n.toInt).toList ++ rest) = some (.number (.integer n), rest) := by
  have number := readNumber_integer n ends
  obtain ⟨c, digits, spelled, starts⟩ := toString_starts n.toInt
  rw [spelled, List.cons_append] at number ⊢
  rw [readValue_scalar levels (starts '[' (by decide) rfl) (starts '{' (by decide) rfl), readScalar,
    number]
  · rfl
  all_goals
    intro _ same
    exact starts _ (by decide) (by decide) (List.head_eq_of_cons_eq same)

theorem Spells.opens {d : Document Int64} (spells : Spells (.document d) text rest) :
    ∃ c more, text = c :: more ∧ isGap c = false ∧ c ≠ ']' := by
  cases spells with
  | number =>
    rename_i n
    obtain ⟨c, digits, spelled, starts⟩ := toString_starts n.toInt
    refine ⟨c, digits ++ rest, by rw [spelled]; rfl, ?_, starts ']' (by decide) rfl⟩
    simp only [isGap, Bool.or_eq_false_iff, beq_eq_false_iff_ne]
    refine ⟨⟨⟨?_, ?_⟩, ?_⟩, ?_⟩ <;> exact starts _ (by decide) rfl
  | _ => exact ⟨_, _, rfl, rfl, by decide⟩

def Phrase.Read (levels : Nat) : Phrase → List Char → List Char → Prop
  | .document d, text, rest => d.depth ≤ levels → endsNumber rest = true →
    readValue levels text = some (d.decoded .integer, rest)
  | .field key d, text, rest => d.depth ≤ levels → endsNumber rest = true →
    readField (readValue levels) text = some ((key, d.decoded .integer), rest)
  | .items ds, text, rest => Document.depthItems ds ≤ levels →
    ReadsMembers ']' (readValue levels) (Document.decodedItems .integer ds) text rest
  | .fields fs, text, rest => Document.depthFields fs ≤ levels →
    ReadsMembers '}' (readField (readValue levels)) (Document.decodedFields .integer fs) text rest

theorem Spells.read {phrase : Phrase} (spells : Spells phrase text rest) (levels : Nat) :
    phrase.Read levels text rest := by
  induction spells generalizing levels with
  | nullWord | trueWord | falseWord => exact fun _ _ => readValue_scalar levels (by decide) (by decide) _
  | number => exact fun _ ends => readValue_number levels _ ends
  | string letters =>
    intro _ _
    rw [readValue_scalar levels (by decide) (by decide), readScalar, readString_letters letters]
    rfl
  | noItems gap =>
    intro within _
    cases levels with
    | zero => cases within
    | succ levels => exact congrArg (Option.map _) (readSequence_nil gap (by decide))
  | noFields gap =>
    intro within _
    cases levels with
    | zero => cases within
    | succ levels => exact congrArg (Option.map _) (readSequence_nil gap (by decide))
  | array _ ih =>
    intro within _
    cases levels with
    | zero => cases within
    | succ levels =>
      exact congrArg (Option.map _) (ih levels (Nat.le_of_succ_le_succ within)).readSequence
  | object _ ih =>
    intro within _
    cases levels with
    | zero => cases within
    | succ levels =>
      exact congrArg (Option.map _) (ih levels (Nat.le_of_succ_le_succ within)).readSequence
  | field letters before after value ih =>
    intro within ends
    obtain ⟨c, more, rfl, noGap, -⟩ := value.opens
    simp [readField, readString_letters letters, before.skipGap_cons, isGap, expect,
      after.skipGap_cons noGap, ih levels within ends]
  | lastItem before value after ih =>
    intro within
    rw [Document.depthItems, Nat.max_le] at within
    exact ReadsItem.last ⟨value.opens, ih levels within.1 (after.endsNumber rfl), value.length_lt⟩
      before after rfl
  | moreItems before value after _ ih others =>
    intro within
    rw [Document.depthItems, Nat.max_le] at within
    exact ReadsItem.more ⟨value.opens, ih levels within.1 (after.endsNumber rfl), value.length_lt⟩
      before after (by decide) (others levels within.2)
  | lastField before value after ih =>
    intro within
    rw [Document.depthFields, Nat.max_le] at within
    refine ReadsItem.last ⟨?_, ih levels within.1 (after.endsNumber rfl), value.length_lt⟩
      before after rfl
    cases value
    exact ⟨'"', _, rfl, rfl, by decide⟩
  | moreFields before value after _ ih others =>
    intro within
    rw [Document.depthFields, Nat.max_le] at within
    refine ReadsItem.more ⟨?_, ih levels within.1 (after.endsNumber rfl), value.length_lt⟩
      before after (by decide) (others levels within.2)
    cases value
    exact ⟨'"', _, rfl, rfl, by decide⟩

theorem mayEnd_of_apart (opening : Char)
    (apart : rest = [] ∨ ∃ c more, rest = c :: more ∧ c ∈ [' ', '\n', '\t', '\r']) :
    mayEnd opening rest = true ∧ endsNumber rest = true := by
  obtain rfl | ⟨c, more, rfl, blank⟩ := apart
  · exact ⟨Bool.or_true _, rfl⟩
  · refine ⟨?_, endsNumber_of_gap blank⟩
    simp [mayEnd, isGap_of_mem blank]

theorem readDocumentsFrom_spelled {ds : List (Document Int64)} (spells : SpellsAll ds text)
    (shallow : ∀ d ∈ ds, d.depth ≤ 127) {bound : List Char} (enough : ds.length ≤ bound.length) :
    readDocumentsFrom bound text = some (Document.decodedItems .integer ds) := by
  induction spells generalizing bound with
  | none gap =>
    rw [readDocumentsFrom, gap.skipGap_eq]
    rfl
  | document before value apart _ ih =>
    rw [List.forall_mem_cons] at shallow
    obtain ⟨opening, more, rfl, noGap, -⟩ := value.opens
    obtain ⟨ends, number⟩ := mayEnd_of_apart opening apart
    cases bound with
    | nil => cases enough
    | cons _ bound =>
      have first := value.read maxLevels shallow.1 number
      have later := ih shallow.2 (Nat.le_of_succ_le_succ enough)
      rw [readDocumentsFrom, before.skipGap_cons noGap]
      simp [first, ends, later, Document.decodedItems]

theorem Decoder.reference_standard : Decoder.reference.Standard Figure.integer where
  toInteger? _ := rfl
  documents _ _ spells shallow := readDocumentsFrom_spelled spells shallow spells.length_le

end RecordPipeline.Json
