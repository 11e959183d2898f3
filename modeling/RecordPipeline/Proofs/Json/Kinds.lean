import Mathlib.Data.List.Induction
import RecordPipeline.Platform.Reference
import RecordPipeline.Proofs.Grammar.Steps
import RecordPipeline.Proofs.Json.Frames
import RecordPipeline.Proofs.Json.Spelling
import RecordPipeline.Proofs.Stream.Pulling

/-!
What JSON texts tell apart. Two values of one text have the same containers with the same keys, and
the same kinds in them, except that a large double may stand where an integer does. Only such values
of different kinds are taken for duplicates of one another.
-/

namespace RecordPipeline

open Text Binary64

namespace Value

mutual

/-- At every position the two are of one kind, and objects have the same keys. An integer and a
double may stand for one another where `mixed` says so. -/
def KindsAgree (mixed : Int64 → Float → Prop) : Value → Value → Prop
  | integer n, float x | float x, integer n => mixed n x
  | array as, array bs => KindsAgreeItems mixed as bs
  | object fields, object others => KindsAgreeFields mixed fields others
  | v, w => v.kind = w.kind

def KindsAgreeItems (mixed : Int64 → Float → Prop) : List Value → List Value → Prop
  | [], [] => True
  | a :: as, b :: bs => KindsAgree mixed a b ∧ KindsAgreeItems mixed as bs
  | _, _ => False

def KindsAgreeFields (mixed : Int64 → Float → Prop) :
    List (String × Value) → List (String × Value) → Prop
  | [], [] => True
  | (k, a) :: as, (l, b) :: bs => k = l ∧ KindsAgree mixed a b ∧ KindsAgreeFields mixed as bs
  | _, _ => False

end

def SameKinds (v w : Value) : Prop :=
  KindsAgree (fun _ _ => False) v w

variable {mixed : Int64 → Float → Prop}

theorem kindsAgreeItems_iff {as bs : List Value} :
    KindsAgreeItems mixed as bs ↔ List.Forall₂ (KindsAgree mixed) as bs := by
  induction as generalizing bs with
  | nil => cases bs <;> simp [KindsAgreeItems]
  | cons a as ih => cases bs <;> simp [KindsAgreeItems, ih]

theorem kindsAgreeFields_iff {fields others : List (String × Value)} :
    KindsAgreeFields mixed fields others ↔
      List.Forall₂ (fun f g => f.1 = g.1 ∧ KindsAgree mixed f.2 g.2) fields others := by
  induction fields generalizing others with
  | nil => cases others <;> simp [KindsAgreeFields]
  | cons field later ih => cases others <;> simp [KindsAgreeFields, ih, and_assoc]

def opening? : Value → Option Char
  | string _ => some '"'
  | array _ => some '['
  | object _ => some '{'
  | _ => none

end Value

namespace Json

open Value

variable {layout : Layout} {mixed : Int64 → Float → Prop}

def wordKind : List Char → Option Kind
  | 'n' :: _ => some .null
  | 't' :: _ | 'f' :: _ => some .boolean
  | _ => none

theorem wordKind_of_isNumeric {text : List Char} (numeric : ∀ c ∈ text, isNumeric c = true) :
    wordKind text = none := by
  rw [wordKind.eq_def]
  split
  · exact absurd (numeric 'n' (by simp)) (by decide)
  · exact absurd (numeric 't' (by simp)) (by decide)
  · exact absurd (numeric 'f' (by simp)) (by decide)
  · rfl

/-- The double is finite, and `mixed` lets integers stand for it that are spelled like it. -/
def Admits (mixed : Int64 → Float → Prop) (x : Float) : Prop :=
  isFinite x = true ∧ ∀ n, SpelledAlike n x → mixed n x

theorem finite_of_admits {v : Value} (admits : ∀ x ∈ v.floats, Admits mixed x) :
    ∀ x ∈ v.floats, isFinite x = true :=
  fun x member => (admits x member).1

theorem floatText_ne_nil {x : Float} (finite : isFinite x = true) : (floatText x).toList ≠ [] := by
  cases large : isLarge x with
  | true =>
    rw [floatText_of_isLarge finite large]
    simp
  | false =>
    obtain ⟨n, wellFormed, -, -, text⟩ := floatText_of_not_isLarge finite large
    rw [text, Numeral.text]
    simp [wellFormed.filled]

theorem isPlain_of_mem_write (layout : Layout) (level : Nat) {v : Value} (word : v.opening? = none)
    (finite : ∀ x ∈ v.floats, isFinite x = true) :
    write layout level v ≠ [] ∧ ∀ c ∈ write layout level v, isPlain c = true := by
  have literal {text : List Char} (plain : text.all isPlain = true) :
      ∀ c ∈ text, isPlain c = true := List.all_eq_true.1 plain
  cases v with
  | null =>
    rw [write]
    exact ⟨by simp, literal rfl⟩
  | boolean b =>
    cases b <;> rw [write] <;> exact ⟨by simp, literal rfl⟩
  | integer n =>
    rw [write]
    refine ⟨?_, fun c member => isPlain_of_isNumeric (isNumeric_of_mem_integer member).1⟩
    obtain ⟨c, text, spelled, -⟩ := toString_starts n.toInt
    rw [spelled]
    exact List.cons_ne_nil c text
  | float x =>
    have finite := finite x (by simp [floats])
    rw [write]
    exact ⟨floatText_ne_nil finite,
      fun c member => isPlain_of_isNumeric (isNumeric_of_mem_floatText finite member)⟩
  | string s => cases word
  | array items => cases word
  | object fields => cases word

/-- The first character of what is written of a value tells words, strings, arrays and objects
apart. -/
theorem write_front (layout : Layout) (level : Nat) {v : Value}
    (finite : ∀ x ∈ v.floats, isFinite x = true) :
    ∃ c text, write layout level v = c :: text ∧ isGap c = false ∧ c ≠ ']' ∧
      v.opening? = if isPlain c then none else some c := by
  cases opens : v.opening? with
  | none =>
    obtain ⟨filled, plain⟩ := isPlain_of_mem_write layout level opens finite
    obtain ⟨c, text, same⟩ := List.exists_cons_of_ne_nil filled
    have plain := plain c (by rw [same]; exact List.mem_cons_self ..)
    refine ⟨c, text, same, ?_, ?_, by rw [if_pos plain]⟩
    · simp only [isPlain, Bool.not_eq_true', Bool.or_eq_false_iff] at plain
      exact plain.1
    · rintro rfl
      exact absurd plain (by decide)
  | some c =>
    cases v with
    | string s =>
      cases opens
      exact ⟨'"', _, by rw [write]; rfl, rfl, by decide, rfl⟩
    | array items =>
      cases opens
      cases items with
      | nil => exact ⟨'[', [']'], by rw [write], rfl, by decide, rfl⟩
      | cons item later => exact ⟨'[', _, by rw [write]; rfl, rfl, by decide, rfl⟩
    | object fields =>
      cases opens
      cases fields with
      | nil => exact ⟨'{', ['}'], by rw [write], rfl, by decide, rfl⟩
      | cons field later => exact ⟨'{', _, by rw [write]; rfl, rfl, by decide, rfl⟩
    | _ => cases opens

theorem opening?_eq_of_write {level : Nat} {v w : Value} {rest rest' : List Char}
    (finite : ∀ x ∈ v.floats, isFinite x = true) (finite' : ∀ x ∈ w.floats, isFinite x = true)
    (same : write layout level v ++ rest = write layout level w ++ rest') :
    v.opening? = w.opening? := by
  obtain ⟨c, text, spelled, -, -, opens⟩ := write_front layout level finite
  obtain ⟨d, text', spelled', -, -, opens'⟩ := write_front layout level finite'
  rw [spelled, spelled', List.cons_append, List.cons_append] at same
  rw [opens, opens', List.head_eq_of_cons_eq same]

theorem wordKind_write {level : Nat} {v : Value} (word : v.opening? = none)
    (finite : ∀ x ∈ v.floats, isFinite x = true) :
    wordKind (write layout level v) =
      if v.kind = .integer ∨ v.kind = .float then none else some v.kind := by
  cases v with
  | null => rw [write]; rfl
  | boolean b => cases b <;> rw [write] <;> rfl
  | integer n =>
    rw [write]
    exact wordKind_of_isNumeric fun c member => (isNumeric_of_mem_integer member).1
  | float x =>
    rw [write]
    exact wordKind_of_isNumeric fun c => isNumeric_of_mem_floatText (finite x (by simp [floats]))
  | string s => cases word
  | array items => cases word
  | object fields => cases word

theorem kindsAgree_of_word {level : Nat} {v w : Value} (word : v.opening? = none)
    (word' : w.opening? = none) (admits : ∀ x ∈ v.floats, Admits mixed x)
    (admits' : ∀ x ∈ w.floats, Admits mixed x)
    (same : write layout level v = write layout level w) : v.KindsAgree mixed w := by
  have kinds := congrArg wordKind same
  rw [wordKind_write word (finite_of_admits admits),
    wordKind_write word' (finite_of_admits admits')] at kinds
  have spelledAlike (n : Int64) (x : Float)
      (same : write layout level (.integer n) = write layout level (.float x)) :
      SpelledAlike n x := by
    rw [write, write] at same
    exact integer_text_eq_iff.1 same
  cases v with
  | integer n =>
    cases w with
    | integer m => rw [KindsAgree.eq_def]; rfl
    | float x =>
      rw [KindsAgree]
      exact (admits' x (by simp [floats])).2 n (spelledAlike n x same)
    | string t | array others | object others => cases word'
    | null | boolean b => simp [kind] at kinds
  | float x =>
    cases w with
    | integer n =>
      rw [KindsAgree]
      exact (admits x (by simp [floats])).2 n (spelledAlike n x same.symm)
    | float y => rw [KindsAgree.eq_def]; rfl
    | string t | array others | object others => cases word'
    | null | boolean b => simp [kind] at kinds
  | null | boolean b =>
    rw [KindsAgree.eq_def]
    cases w <;> simp [kind] at kinds ⊢
  | string s | array items | object fields => cases word

theorem writeField_tells {level : Nat} {field other : String × Value}
    (value : Frame.Tells (KindsAgree mixed) (write layout level) field.2 other.2) :
    Frame.Tells (fun f g => f.1 = g.1 ∧ KindsAgree mixed f.2 g.2) (writeField layout level)
      field other := by
  intro rest rest' ends ends' same
  simp only [writeField, List.append_assoc] at same
  obtain ⟨key, behind⟩ := writeString_inj same
  obtain ⟨agree, rfl⟩ := value ends ends' (List.append_cancel_left behind)
  exact ⟨⟨key, agree⟩, rfl⟩

theorem write_tells {level : Nat} {v w : Value} (admits : ∀ x ∈ v.floats, Admits mixed x)
    (admits' : ∀ x ∈ w.floats, Admits mixed x) :
    Frame.Tells (KindsAgree mixed) (write layout level) v w := by
  induction v using induction_on_parts generalizing level w with
  | array items ih =>
    intro rest rest' ends ends' same
    have opens := opening?_eq_of_write (finite_of_admits admits) (finite_of_admits admits') same
    cases w with
    | array others =>
      rw [forall_floats_array] at admits admits'
      have starts {items : List Value}
          (admits : ∀ item ∈ items, ∀ x ∈ item.floats, Admits mixed x) :
          ∀ item ∈ items, (Frame.array layout level).Starts (write layout (level + 1)) item := by
        intro item member
        obtain ⟨c, text, spelled, noGap, noClose, -⟩ :=
          write_front layout (level + 1) (finite_of_admits (admits item member))
        exact ⟨c, text, spelled, noGap, noClose⟩
      rw [write_array, write_array] at same
      rw [KindsAgree, kindsAgreeItems_iff]
      exact (Frame.array layout level).body_inj (starts admits) (starts admits')
        (fun item member other among => ih item member (admits item member) (admits' other among))
        (List.tail_eq_of_cons_eq same)
    | _ => cases opens
  | object fields ih =>
    intro rest rest' ends ends' same
    have opens := opening?_eq_of_write (finite_of_admits admits) (finite_of_admits admits') same
    cases w with
    | object others =>
      rw [forall_floats_object] at admits admits'
      have starts (fields : List (String × Value)) : ∀ field ∈ fields,
          (Frame.object layout level).Starts (writeField layout (level + 1)) field :=
        fun field _ => ⟨'"', _, rfl, rfl, show '"' ≠ '}' by decide⟩
      rw [write_object, write_object] at same
      rw [KindsAgree, kindsAgreeFields_iff]
      exact (Frame.object layout level).body_inj (starts fields) (starts others)
        (fun field member other among =>
          writeField_tells (ih field member (admits field member) (admits' other among)))
        (List.tail_eq_of_cons_eq same)
    | _ => cases opens
  | other v noArray noObject =>
    intro rest rest' ends ends' same
    have opens := opening?_eq_of_write (finite_of_admits admits) (finite_of_admits admits') same
    cases word : v.opening? with
    | none =>
      have word' := opens ▸ word
      obtain ⟨text, behind⟩ := append_inj_of_plain
        (isPlain_of_mem_write layout level word (finite_of_admits admits)).2
        (isPlain_of_mem_write layout level word' (finite_of_admits admits')).2 ends ends' same
      exact ⟨kindsAgree_of_word word word' admits admits' text, behind⟩
    | some c =>
      cases v with
      | string s =>
        cases w with
        | string t =>
          rw [write, write] at same
          rw [KindsAgree.eq_def]
          exact ⟨rfl, (writeString_inj same).2⟩
        | _ => cases opens
      | array items => exact absurd rfl (noArray items)
      | object fields => exact absurd rfl (noObject fields)
      | _ => cases word

theorem kindsAgree_of_text {v w : Value} (admits : ∀ x ∈ v.floats ++ w.floats, Admits mixed x)
    (same : text layout v = text layout w) : v.KindsAgree mixed w := by
  rw [List.forall_mem_append] at admits
  have texts := congrArg (· ++ []) (String.ofList_injective same)
  exact (write_tells admits.1 admits.2 rfl rfl texts).1

end Json

def Reaction.drops : Reaction → Bool
  | answer _ _ => false
  | again _ => true

namespace Adaptor

def behind (a : Adaptor) (items : List Item) : Adaptor :=
  items.foldl (fun a item => (a.react (some item)).after) a

theorem behind_concat (a : Adaptor) (items : List Item) (item : Item) :
    a.behind (items ++ [item]) = ((a.behind items).react (some item)).after :=
  List.foldl_append

theorem exists_behind_unique (key : Value → Evaluated String) (earlier : List Item) :
    ∃ seen, (unique key []).behind earlier = unique key seen ∧
      ∀ k ∈ seen, ∃ u, .ok u ∈ earlier ∧ key u = .ok k := by
  induction earlier using List.reverseRecOn with
  | nil => exact ⟨[], rfl, nofun⟩
  | append_singleton earlier item ih =>
    obtain ⟨seen, same, known⟩ := ih
    have known' : ∀ k ∈ seen, ∃ u, .ok u ∈ earlier ++ [item] ∧ key u = .ok k := fun k member =>
      let ⟨u, among, found⟩ := known k member
      ⟨u, List.mem_append_left _ among, found⟩
    rw [behind_concat, same]
    cases item with
    | error e =>
      cases panic : Item.panic? (.error e) with
      | none =>
        rw [react_error panic]
        exact ⟨seen, rfl, known'⟩
      | some cause =>
        cases Item.eq_of_panic? panic
        exact ⟨seen, rfl, known'⟩
    | ok v =>
      rw [react, onRecord]
      cases found : key v with
      | error e => exact ⟨seen, rfl, known'⟩
      | ok k =>
        dsimp only
        split
        · exact ⟨seen, rfl, known'⟩
        · exact ⟨k :: seen, rfl, List.forall_mem_cons.2 ⟨⟨v, by simp, found⟩, known'⟩⟩

/-- A record is dropped only for a record before it whose key has the same text. -/
theorem exists_of_drops {key : Value → Evaluated Value} {earlier : List Item} {v : Value}
    (dropped : (((unique (fun v => (key v).map (Json.text .compact)) []).behind earlier).react
      (some (.ok v))).drops = true) :
    ∃ u k' k, .ok u ∈ earlier ∧ key u = .ok k' ∧ key v = .ok k ∧
      Json.text .compact k' = Json.text .compact k := by
  obtain ⟨seen, same, known⟩ := exists_behind_unique (fun v => (key v).map (Json.text .compact)) earlier
  rw [same, react, onRecord] at dropped
  cases found : key v with
  | error e =>
    rw [found] at dropped
    cases dropped
  | ok k =>
    rw [found] at dropped
    change (if seen.contains (Json.text .compact k) then Reaction.again _ else _).drops = true at dropped
    split at dropped
    · rename_i member
      obtain ⟨u, among, text⟩ := known _ (List.contains_iff_mem.1 member)
      obtain ⟨k', found', text⟩ := except_map_ok.1 text
      exact ⟨u, k', k, among, found', rfl, text⟩
    · cases dropped

end Adaptor

namespace Json

/-- Values of one text agree in their kinds, but for large doubles spelled like integers. -/
structure Told (v w : Value) : Prop where
  agree : v.KindsAgree SpelledAlike w
  sameKinds : (∀ x ∈ v.floats ++ w.floats, isLarge x = false) → v.SameKinds w

theorem told_of_text {layout : Layout} {v w : Value}
    (finite : ∀ x ∈ v.floats ++ w.floats, isFinite x = true)
    (same : text layout v = text layout w) : Told v w where
  agree := kindsAgree_of_text (fun x member => ⟨finite x member, fun _ => id⟩) same
  sameKinds small := kindsAgree_of_text (fun x member => ⟨finite x member, fun _ alike =>
    Bool.false_ne_true ((small x member).symm.trans alike.2.1)⟩) same

/-- An integer and a finite double have different texts, unless the double is large: then they have
one text where the digits of the double are the integer, and the integer is equal to it. Values of
one text have the same kinds at every position but for such pairs, and a record is dropped as a
duplicate only for an earlier one whose key has the same kinds but for such pairs. -/
theorem text_tells_kinds (layout : Layout) (platform : Platform) (i : Invocation) :
    (∀ (n : Int64) (x : Float),
      (text layout (.integer n) = text layout (.float x) ↔ SpelledAlike n x) ∧
        (SpelledAlike n x → Value.looseEq (.integer n) (.float x) = true)) ∧
    (∀ v w : Value, (∀ x ∈ v.floats ++ w.floats, isFinite x = true) →
      text layout v = text layout w → Told v w) ∧
    ∃ a, StageKind.unique.adaptors platform i = .ok [a] ∧
      ∀ (earlier : List Item) (v : Value), ((a.behind earlier).react (some (.ok v))).drops = true →
        ∃ u k' k, .ok u ∈ earlier ∧ i.callable.eval platform u = .ok k' ∧
          i.callable.eval platform v = .ok k ∧
          ((∀ x ∈ k'.floats ++ k.floats, isFinite x = true) → Told k' k) := by
  refine ⟨fun n x => ⟨?_, fun alike => ?_⟩, fun v w => told_of_text,
    ⟨_, rfl, fun earlier v dropped => ?_⟩⟩
  · rw [← integer_text_eq_iff, text, text, String.ofList_inj, write, write]
  · rw [Value.looseEq]
    exact alike.same
  · obtain ⟨u, k', k, member, found', found, same⟩ := Adaptor.exists_of_drops dropped
    exact ⟨u, k', k, member, found', found, fun finite => told_of_text finite same⟩

theorem drops_large :
    (((Adaptor.unique (fun v => (Except.ok v).map (text .compact)) []).behind
      [.ok (.integer 10000000000000000)]).react
        (some (.ok (.float (ofInt 10000000000000000))))).drops = true := by
  decide +kernel

/-- The integer and the double `10 ^ 16`, alone, inside arrays, and one behind the other. -/
theorem text_tells_kinds_large :
    text .pretty (.integer 10000000000000000) = text .pretty (.float (ofInt 10000000000000000)) ∧
    Value.looseEq (.integer 10000000000000000) (.float (ofInt 10000000000000000)) = true ∧
    Told (.array [.null, .integer 10000000000000000])
      (.array [.null, .float (ofInt 10000000000000000)]) ∧
    Value.SameKinds (.array [.float (ofInt 1)]) (.array [.float (ofInt 1)]) ∧
    Told (.integer 10000000000000000) (.float (ofInt 10000000000000000)) := by
  obtain ⟨numbers, values, a, built, dropped⟩ :=
    text_tells_kinds .pretty (Platform.reference ⟨0, 0, 0⟩) .passthrough
  have alike : SpelledAlike 10000000000000000 (ofInt 10000000000000000) := by decide +kernel
  obtain ⟨same, equal⟩ := numbers 10000000000000000 (ofInt 10000000000000000)
  have one : ∀ x ∈ (Value.array [.float (ofInt 1)]).floats ++
      (Value.array [.float (ofInt 1)]).floats, isFinite x = true ∧ isLarge x = false := by
    decide +kernel
  refine ⟨same.2 alike, equal alike, ?_, ?_, ?_⟩
  · exact values _ _ (by decide +kernel) (by decide +kernel)
  · exact (values _ _ (fun x member => (one x member).1) rfl).sameKinds
      fun x member => (one x member).2
  · cases built
    obtain ⟨u, k', k, member, key', key, told⟩ := dropped _ _ drops_large
    cases List.mem_singleton.1 member
    cases key'
    cases key
    exact told (by decide +kernel)

/-- An integer and a finite double of one text, and the one is dropped behind the other. -/
theorem text_integer_eq_float :
    isFinite (ofInt 10000000000000000) = true ∧
    text .compact (.integer 10000000000000000) =
      text .compact (.float (ofInt 10000000000000000)) ∧
    ∀ platform, ∃ a, StageKind.unique.adaptors platform .passthrough = .ok [a] ∧
      ((a.behind [.ok (.integer 10000000000000000)]).react
        (some (.ok (.float (ofInt 10000000000000000))))).drops = true :=
  ⟨by decide +kernel, by decide +kernel, fun platform => ⟨_, rfl, drops_large⟩⟩

end Json

end RecordPipeline
