import RecordPipeline.Proofs.Json.Spelling

/-!
Containers in JSON texts. The items of a container that stand between the same gaps and brackets are
the same if the texts are, as far as each can be told from what follows it.
-/

namespace RecordPipeline.Json

open Text

def isPlain (c : Char) : Bool :=
  !(isGap c || ['"', ',', '[', ']', '{', '}'].contains c)

def endsWord : List Char → Bool
  | [] => true
  | c :: _ => !isPlain c

theorem isPlain_of_isNumeric {c : Char} (numeric : isNumeric c = true) : isPlain c = true := by
  have digits : ['0', '1', '2', '3', '4', '5', '6', '7', '8', '9'].all isPlain = true := rfl
  simp only [isNumeric, Bool.or_eq_true, beq_iff_eq] at numeric
  rcases numeric with (digit | rfl) | rfl
  · exact List.all_eq_true.1 digits c (digit_cases digit)
  · rfl
  · rfl

/-- Words that are ended are the same if the texts that go on behind them are. -/
theorem append_inj_of_plain {s t rest rest' : List Char} (hs : ∀ c ∈ s, isPlain c = true)
    (ht : ∀ c ∈ t, isPlain c = true) (ends : endsWord rest = true) (ends' : endsWord rest' = true)
    (same : s ++ rest = t ++ rest') : s = t ∧ rest = rest' := by
  induction s generalizing t with
  | nil =>
    cases t with
    | nil => exact ⟨rfl, same⟩
    | cons d t =>
      rw [List.nil_append] at same
      rw [same, List.cons_append, endsWord, ht d (by simp)] at ends
      cases ends
  | cons c s ih =>
    cases t with
    | nil =>
      rw [List.nil_append] at same
      rw [← same, List.cons_append, endsWord, hs c (by simp)] at ends'
      cases ends'
    | cons d t =>
      rw [List.cons_append, List.cons_append, List.cons.injEq] at same
      obtain ⟨rfl, same⟩ := same
      obtain ⟨rfl, rfl⟩ := ih (fun e member => hs e (List.mem_cons_of_mem c member))
        (fun e member => ht e (List.mem_cons_of_mem c member)) same
      exact ⟨rfl, rfl⟩

theorem skipGap_append {gap text : List Char} {c : Char} (blank : ∀ c ∈ gap, isGap c = true)
    (noGap : isGap c = false) : skipGap (gap ++ c :: text) = c :: text := by
  rw [skipGap, List.dropWhile_append_of_pos blank,
    List.dropWhile_cons_of_neg (ne_true_of_eq_false noGap)]

theorem isGap_break (layout : Layout) (level : Nat) : ∀ c ∈ layout.break level, isGap c = true := by
  cases layout with
  | compact => simp [Layout.break]
  | pretty =>
    intro c member
    rcases List.mem_cons.1 member with rfl | member
    · rfl
    · rw [List.eq_of_mem_replicate member]
      rfl

/-- How the items of a container are set apart: what goes before every item, and before the closing
bracket. -/
structure Frame where
  close : Char
  gap : List Char
  last : List Char
  isClose : close = ']' ∨ close = '}'
  gap_blank : ∀ c ∈ gap, isGap c = true
  last_blank : ∀ c ∈ last, isGap c = true

namespace Frame

variable {α : Type} {R : α → α → Prop} {spell : α → List Char} {xs ys : List α}
  {rest rest' : List Char} (frame : Frame)

theorem close_spec : isGap frame.close = false ∧ frame.close ≠ ',' := by
  rcases frame.isClose with close | close <;> rw [close] <;> exact ⟨rfl, by decide⟩

def closing (spell : α → List Char) (xs : List α) (rest : List Char) : List Char :=
  xs.flatMap (fun x => ',' :: (frame.gap ++ spell x)) ++ (frame.last ++ frame.close :: rest)

theorem closing_nil (spell : α → List Char) (rest : List Char) :
    frame.closing spell [] rest = frame.last ++ frame.close :: rest := rfl

theorem closing_cons (spell : α → List Char) (x : α) (xs : List α) (rest : List Char) :
    frame.closing spell (x :: xs) rest =
      ',' :: (frame.gap ++ (spell x ++ frame.closing spell xs rest)) := by
  simp [closing]

def body (spell : α → List Char) (xs : List α) (rest : List Char) : List Char :=
  match xs with
  | [] => frame.close :: rest
  | x :: xs => frame.gap ++ (spell x ++ frame.closing spell xs rest)

/-- What the two things are followed by is told apart from them, and so are they, but for `R`. -/
def Tells (R : α → α → Prop) (spell : α → List Char) (x y : α) : Prop :=
  ∀ {rest rest' : List Char}, endsWord rest = true → endsWord rest' = true →
    spell x ++ rest = spell y ++ rest' → R x y ∧ rest = rest'

def Starts (spell : α → List Char) (x : α) : Prop :=
  ∃ c text, spell x = c :: text ∧ isGap c = false ∧ c ≠ frame.close

theorem endsWord_append {gap text : List Char} (blank : ∀ c ∈ gap, isGap c = true)
    (ends : endsWord text = true) : endsWord (gap ++ text) = true := by
  cases gap with
  | nil => exact ends
  | cons c gap => simp [endsWord, isPlain, blank c (by simp)]

theorem endsWord_closing : endsWord (frame.closing spell xs rest) = true := by
  cases xs with
  | nil =>
    rw [closing_nil]
    refine endsWord_append frame.last_blank ?_
    rcases frame.isClose with close | close <;> rw [close] <;> rfl
  | cons x xs =>
    rw [closing_cons]
    rfl

theorem comma_ne_last (text : List Char) : ',' :: text ≠ frame.last ++ frame.close :: rest := by
  intro same
  have skipped := congrArg skipGap same
  rw [skipGap_append frame.last_blank frame.close_spec.1] at skipped
  exact frame.close_spec.2 (List.head_eq_of_cons_eq skipped).symm

theorem close_ne_item {x : α} (starts : frame.Starts spell x) (text : List Char) :
    frame.close :: rest ≠ frame.gap ++ (spell x ++ text) := by
  obtain ⟨c, front, spelled, noGap, noClose⟩ := starts
  intro same
  have skipped := congrArg skipGap same
  have none : ∀ c ∈ ([] : List Char), isGap c = true := by simp
  have closed : skipGap (frame.close :: rest) = frame.close :: rest :=
    skipGap_append none frame.close_spec.1
  rw [spelled, List.cons_append, skipGap_append frame.gap_blank noGap, closed] at skipped
  exact noClose (List.head_eq_of_cons_eq skipped).symm

theorem closing_inj (tells : ∀ x ∈ xs, ∀ y ∈ ys, Tells R spell x y)
    (same : frame.closing spell xs rest = frame.closing spell ys rest') :
    List.Forall₂ R xs ys ∧ rest = rest' := by
  induction xs generalizing ys with
  | nil =>
    cases ys with
    | nil =>
      rw [closing_nil, closing_nil] at same
      exact ⟨.nil, List.tail_eq_of_cons_eq (List.append_cancel_left same)⟩
    | cons y ys =>
      rw [closing_nil, closing_cons] at same
      exact absurd same.symm (frame.comma_ne_last _)
  | cons x xs ih =>
    cases ys with
    | nil =>
      rw [closing_nil, closing_cons] at same
      exact absurd same (frame.comma_ne_last _)
    | cons y ys =>
      rw [closing_cons, closing_cons] at same
      have items := List.append_cancel_left (List.tail_eq_of_cons_eq same)
      obtain ⟨first, behind⟩ := tells x (by simp) y (by simp) frame.endsWord_closing
        frame.endsWord_closing items
      obtain ⟨others, rfl⟩ := ih (fun x memberX y memberY =>
        tells x (List.mem_cons_of_mem _ memberX) y (List.mem_cons_of_mem _ memberY)) behind
      exact ⟨.cons first others, rfl⟩

theorem body_inj (starts : ∀ x ∈ xs, frame.Starts spell x)
    (starts' : ∀ y ∈ ys, frame.Starts spell y) (tells : ∀ x ∈ xs, ∀ y ∈ ys, Tells R spell x y)
    (same : frame.body spell xs rest = frame.body spell ys rest') :
    List.Forall₂ R xs ys ∧ rest = rest' := by
  cases xs with
  | nil =>
    cases ys with
    | nil => exact ⟨.nil, List.tail_eq_of_cons_eq same⟩
    | cons y ys => exact absurd same (frame.close_ne_item (starts' y (by simp)) _)
  | cons x xs =>
    cases ys with
    | nil => exact absurd same.symm (frame.close_ne_item (starts x (by simp)) _)
    | cons y ys =>
      have behindComma : frame.closing spell (x :: xs) rest = frame.closing spell (y :: ys) rest' := by
        rw [closing_cons, closing_cons]
        exact congrArg (',' :: ·) same
      exact frame.closing_inj tells behindComma

end Frame

def Frame.of (layout : Layout) (level : Nat) (close : Char) (isClose : close = ']' ∨ close = '}') :
    Frame :=
  ⟨close, layout.break (level + 1), layout.break level, isClose, isGap_break layout (level + 1),
    isGap_break layout level⟩

def Frame.array (layout : Layout) (level : Nat) : Frame :=
  .of layout level ']' (.inl rfl)

def Frame.object (layout : Layout) (level : Nat) : Frame :=
  .of layout level '}' (.inr rfl)

def writeField (layout : Layout) (level : Nat) (field : String × Value) : List Char :=
  writeString field.1 ++ (layout.colon ++ write layout level field.2)

theorem writeItems_append (layout : Layout) (level : Nat) (items : List Value) (rest : List Char) :
    writeItems layout level items ++ (layout.break level ++ ']' :: rest) =
      (Frame.array layout level).closing (write layout (level + 1)) items rest := by
  induction items with
  | nil => rfl
  | cons item later ih =>
    rw [Frame.closing_cons, ← ih, writeItems]
    simp [Frame.array, Frame.of]

theorem writeFields_append (layout : Layout) (level : Nat) (fields : List (String × Value))
    (rest : List Char) :
    writeFields layout level fields ++ (layout.break level ++ '}' :: rest) =
      (Frame.object layout level).closing (writeField layout (level + 1)) fields rest := by
  induction fields with
  | nil => rfl
  | cons field later ih =>
    rw [Frame.closing_cons, ← ih, writeFields]
    simp [Frame.object, Frame.of, writeField]

theorem write_array_cons (layout : Layout) (level : Nat) (item : Value) (later : List Value)
    (rest : List Char) :
    write layout level (.array (item :: later)) ++ rest =
      '[' :: ((Frame.array layout level).gap ++ (write layout (level + 1) item ++
        (Frame.array layout level).closing (write layout (level + 1)) later rest)) := by
  rw [← writeItems_append, write]
  simp [Frame.array, Frame.of]

theorem write_object_cons (layout : Layout) (level : Nat) (field : String × Value)
    (later : List (String × Value)) (rest : List Char) :
    write layout level (.object (field :: later)) ++ rest =
      '{' :: ((Frame.object layout level).gap ++ (writeField layout (level + 1) field ++
        (Frame.object layout level).closing (writeField layout (level + 1)) later rest)) := by
  rw [← writeFields_append, write]
  simp [Frame.object, Frame.of, writeField]

theorem write_array (layout : Layout) (level : Nat) (items : List Value) (rest : List Char) :
    write layout level (.array items) ++ rest =
      '[' :: (Frame.array layout level).body (write layout (level + 1)) items rest := by
  cases items with
  | nil => rw [write]; rfl
  | cons item later => exact write_array_cons layout level item later rest

theorem write_object (layout : Layout) (level : Nat) (fields : List (String × Value))
    (rest : List Char) :
    write layout level (.object fields) ++ rest =
      '{' :: (Frame.object layout level).body (writeField layout (level + 1)) fields rest := by
  cases fields with
  | nil => rw [write]; rfl
  | cons field later => exact write_object_cons layout level field later rest

theorem writeString_inj {s t : String} {rest rest' : List Char}
    (same : writeString s ++ rest = writeString t ++ rest') : s = t ∧ rest = rest' := by
  have read := congrArg readString same
  rw [readString_writeString, readString_writeString, Option.some.injEq, Prod.mk.injEq] at read
  exact read

end RecordPipeline.Json
