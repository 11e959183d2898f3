import RecordPipeline.Eval
import RecordPipeline.Proofs.Grammar.Steps
import RecordPipeline.Proofs.Value.Shape
import RecordPipeline.Proofs.Value.Sorting

/-!
Values keep their fields in key order. What is evaluated on a canonical record is canonical, for the
fields of an object are put in order, merged into others, or those of a value inside the record.
-/

namespace RecordPipeline

/-- If there is a value, it is such a one. -/
def Evaluated.Meets {α : Type} (x : Evaluated α) (P : α → Prop) : Prop :=
  ∀ v, x = .ok v → P v

namespace Evaluated

variable {α β : Type} {P : α → Prop} {Q : β → Prop} {x : Evaluated α} {f : α → Evaluated β}

theorem meets_ok {v : α} (h : P v) : Meets (.ok v) P := by
  rintro _ ⟨⟩
  exact h

theorem meets_error (e : EvalError) : Meets (.error e) P := nofun

theorem meets_refuse (cause : Misuse) : Meets (refuse cause) P := nofun

theorem Meets.bind (h : x.Meets P) (next : ∀ v, P v → (f v).Meets Q) : (x >>= f).Meets Q := by
  intro w bound
  obtain ⟨v, given, rest⟩ := except_bind_ok.1 bound
  exact next v (h v given) w rest

theorem meets_bind (next : ∀ v, (f v).Meets Q) : (x >>= f).Meets Q := by
  intro w bound
  obtain ⟨v, -, rest⟩ := except_bind_ok.1 bound
  exact next v w rest

theorem Meets.map {g : α → β} (h : x.Meets P) (next : ∀ v, P v → Q (g v)) : Meets (x.map g) Q := by
  intro w mapped
  obtain ⟨v, given, rfl⟩ := except_map_ok.1 mapped
  exact next v (h v given)

end Evaluated

namespace Fields

variable {α : Type} {P : α → Prop}

theorem forall_insert {fields : List (String × α)} {key : String} {item : α}
    (h : ∀ field ∈ fields, P field.2) (here : P item) : ∀ field ∈ insert key item fields, P field.2 := by
  intro field member
  rcases mem_insert member with rfl | member
  · exact here
  · exact h field member

theorem forall_merge {fields changes : List (String × α)} (h : ∀ field ∈ fields, P field.2)
    (h' : ∀ change ∈ changes, P change.2) : ∀ field ∈ merge fields changes, P field.2 := by
  induction changes generalizing fields with
  | nil => exact h
  | cons change later ih =>
    obtain ⟨here, others⟩ := List.forall_mem_cons.1 h'
    exact ih (forall_insert h here) others

theorem of_get? {fields : List (String × α)} {key : String} {item : α}
    (h : ∀ field ∈ fields, P field.2) (found : get? key fields = some item) : P item := by
  obtain ⟨before, after, rfl, -⟩ := List.lookup_eq_some_iff.1 found
  exact h (key, item) (by simp)

variable {fields changes : List (String × α)} {field : String × α}

theorem mem_insert_iff (sorted : Sorted fields) {key : String} {item : α} :
    field ∈ insert key item fields ↔ field = (key, item) ∨ (field ∈ fields ∧ field.1 ≠ key) := by
  induction fields with
  | nil => simp [insert]
  | cons first later ih =>
    obtain ⟨k, old⟩ := first
    obtain ⟨least, rest⟩ := List.pairwise_cons.1 sorted
    have beyond {bound : String} (upTo : bound ≤ k) (field : String × α) (member : field ∈ later) :
        field.1 ≠ bound := by
      rintro rfl
      exact absurd (least field member) (String.not_lt.2 upTo)
    rw [insert]
    split
    · rename_i before
      have apart (other : String × α) (member : other ∈ (k, old) :: later) : other.1 ≠ key := by
        rcases List.mem_cons.1 member with rfl | member
        · exact fun same => String.lt_irrefl _ (same ▸ before)
        · exact beyond (Std.le_of_lt before) other member
      rw [List.mem_cons]
      exact or_congr_right ⟨fun member => ⟨member, apart field member⟩, And.left⟩
    split
    · rename_i same
      subst same
      rw [List.mem_cons, List.mem_cons]
      refine or_congr_right ⟨fun member => ⟨.inr member, beyond (String.le_refl _) field member⟩, ?_⟩
      rintro ⟨rfl | member, apart⟩
      · exact absurd rfl apart
      · exact member
    · rename_i notSame
      rw [List.mem_cons, ih rest, List.mem_cons]
      constructor
      · rintro (rfl | same | ⟨member, apart⟩)
        · exact .inr ⟨.inl rfl, fun same => notSame same.symm⟩
        · exact .inl same
        · exact .inr ⟨.inr member, apart⟩
      · rintro (same | ⟨rfl | member, apart⟩)
        · exact .inr (.inl same)
        · exact .inl rfl
        · exact .inr (.inr ⟨member, apart⟩)

theorem mem_merge_iff (sorted : Sorted fields) (apart : (changes.map Prod.fst).Nodup) :
    field ∈ merge fields changes ↔
      field ∈ changes ∨ (field ∈ fields ∧ field.1 ∉ changes.map Prod.fst) := by
  induction changes generalizing fields with
  | nil => simp [merge]
  | cons change later ih =>
    obtain ⟨new, apart⟩ := List.nodup_cons.1 apart
    have step : field ∈ merge fields (change :: later) ↔
        field ∈ merge (insert change.1 change.2 fields) later := Iff.rfl
    rw [step, ih (sorted.insert change.1 change.2) apart, mem_insert_iff sorted, List.mem_cons,
      List.map_cons, List.mem_cons, not_or]
    constructor
    · rintro (member | ⟨rfl | ⟨member, here⟩, others⟩)
      · exact .inl (.inr member)
      · exact .inl (.inl rfl)
      · exact .inr ⟨member, here, others⟩
    · rintro ((rfl | member) | ⟨member, here, others⟩)
      · exact .inr ⟨.inl rfl, new⟩
      · exact .inl member
      · exact .inr ⟨.inr ⟨member, here⟩, others⟩

theorem Sorted.nodup_keys (sorted : Sorted fields) : (fields.map Prod.fst).Nodup := by
  rw [List.nodup_iff_pairwise_ne, List.pairwise_map]
  refine sorted.imp fun {a b} less same => ?_
  rw [same] at less
  exact String.lt_irrefl _ less

theorem Sorted.nodup (sorted : Sorted fields) : fields.Nodup :=
  List.Nodup.of_map _ sorted.nodup_keys

theorem Sorted.eq_of_key {other : String × α} (sorted : Sorted fields) (h : field ∈ fields) (h' : other ∈ fields)
    (same : field.1 = other.1) : field = other :=
  List.inj_on_of_nodup_map sorted.nodup_keys h h' same

theorem merge_eq_mergeSort (sorted : Sorted fields) (sorted' : Sorted changes) :
    merge fields changes =
      ((fields.filter fun field => field.1 ∉ changes.map Prod.fst) ++ changes).mergeSort
        fun a b => a.1 ≤ b.1 := by
  have members (field : String × α) : field ∈ merge fields changes ↔
      field ∈ (fields.filter fun field => field.1 ∉ changes.map Prod.fst) ++ changes := by
    rw [mem_merge_iff sorted sorted'.nodup_keys, List.mem_append, List.mem_filter, decide_eq_true_iff, or_comm]
  have apart : ((fields.filter fun field => field.1 ∉ changes.map Prod.fst) ++ changes).Nodup := by
    refine List.nodup_append.2 ⟨sorted.nodup.filter _, sorted'.nodup, ?_⟩
    rintro field kept _ change rfl
    exact of_decide_eq_true (List.mem_filter.1 kept).2 (List.mem_map_of_mem change)
  have perm := (List.perm_ext_iff_of_nodup (sorted.merge changes).nodup apart).2 members
  have ordered := @List.pairwise_mergeSort (String × α) (fun a b => a.1 ≤ b.1)
    (fun a b c first second => by
      simp only [decide_eq_true_iff] at first second ⊢
      exact String.le_trans first second)
    (fun a b => by simpa using String.le_total a.1 b.1)
    ((fields.filter fun field => field.1 ∉ changes.map Prod.fst) ++ changes)
  refine List.Perm.eq_of_pairwise (fun field other member among le ge => ?_)
    ((sorted.merge changes).imp fun less => decide_eq_true (Std.le_of_lt less)) ordered
    (perm.trans (List.mergeSort_perm _ _).symm)
  have inside := perm.mem_iff.2 ((List.mergeSort_perm _ _).mem_iff.1 among)
  exact (sorted.merge changes).eq_of_key member inside
    (String.le_antisymm (of_decide_eq_true le) (of_decide_eq_true ge))

end Fields

namespace Value

@[simp] theorem canonical_null : null.Canonical := trivial

@[simp] theorem canonical_boolean (b : Bool) : (boolean b).Canonical := trivial

@[simp] theorem canonical_integer (n : Int64) : (integer n).Canonical := trivial

@[simp] theorem canonical_float (x : Float) : (float x).Canonical := trivial

@[simp] theorem canonical_string (s : String) : (string s).Canonical := trivial

theorem canonical_array {items : List Value} :
    (array items).Canonical ↔ ∀ item ∈ items, item.Canonical :=
  canonicalItems_iff

theorem canonical_object {fields : List (String × Value)} :
    (object fields).Canonical ↔ Fields.Sorted fields ∧ ∀ field ∈ fields, field.2.Canonical :=
  and_congr_right fun _ => canonicalFields_iff

theorem canonical_ofList {pairs : List (String × Value)} (h : ∀ pair ∈ pairs, pair.2.Canonical) :
    (object (Fields.ofList pairs)).Canonical :=
  canonical_object.2 ⟨Fields.sorted_ofList pairs, Fields.forall_merge (by simp) h⟩

theorem canonical_merge {fields changes : List (String × Value)} (h : (object fields).Canonical)
    (h' : ∀ change ∈ changes, change.2.Canonical) : (object (Fields.merge fields changes)).Canonical :=
  have ⟨sorted, parts⟩ := canonical_object.1 h
  canonical_object.2 ⟨sorted.merge changes, Fields.forall_merge parts h'⟩

theorem canonical_getD {v? : Option Value} {default : Value} (h : ∀ v ∈ v?, v.Canonical)
    (h' : default.Canonical) : (v?.getD default).Canonical := by
  cases v? with
  | none => exact h'
  | some v => exact h v rfl

end Value

open Evaluated

section Operators

variable {decimals : DecimalLibrary} {v w : Value}

theorem Value.meets_ofInt (n : Int) : (ofInt n).Meets Canonical := by
  rw [ofInt]
  split
  · exact meets_ok trivial
  · exact meets_refuse _

theorem Value.NumberRule.meets_apply {rule : NumberRule decimals}
    (integers : ∀ a b, (rule.integers a b).Meets Canonical) (a b : Value) :
    (rule.apply a b).Meets Canonical := by
  have mixed (a b : Value) (x y : Float) : (rule.mixed a b x y).Canonical := by
    refine canonical_getD (fun v reached => ?_) trivial
    obtain ⟨c, -, reached⟩ := Option.bind_eq_some_iff.1 reached
    obtain ⟨d, -, reached⟩ := Option.bind_eq_some_iff.1 reached
    obtain ⟨result, -, reached⟩ := Option.bind_eq_some_iff.1 reached
    rw [ofDecimal?] at reached
    split at reached
    · cases reached
      trivial
    · obtain ⟨x, -, rfl⟩ := Option.map_eq_some_iff.1 reached
      trivial
  fun_cases apply rule a b
  · exact integers _ _
  · exact meets_ok trivial
  · exact meets_ok (mixed ..)
  · exact meets_ok (mixed ..)
  · exact meets_refuse _

theorem Value.meets_add (h : v.Canonical) (h' : w.Canonical) :
    (v.add decimals w).Meets Canonical := by
  fun_cases add decimals v w
  · exact meets_ok trivial
  · refine meets_ok (canonical_array.2 fun item member => ?_)
    rcases List.mem_append.1 member with member | member
    · exact canonical_array.1 h item member
    · exact canonical_array.1 h' item member
  · exact NumberRule.meets_apply (fun _ _ => meets_ofInt _) _ _

theorem Operator.meets_apply (op : Operator) (h : v.Canonical) (h' : w.Canonical) :
    (op.apply decimals v w).Meets Value.Canonical := by
  have comparison (op : Operator) (accepts : Ordering → Bool) :
      (Value.comparison op accepts v w).Meets Value.Canonical := by
    rw [Value.comparison]
    split
    · exact meets_ok trivial
    · exact meets_refuse _
  cases op with
  | equal | notEqual | and | or => exact meets_ok trivial
  | less | greater | lessEqual | greaterEqual => exact comparison _ _
  | member =>
    have any : (Value.holds v w).Meets fun _ => True := fun _ _ => trivial
    exact any.map fun _ _ => trivial
  | add => exact Value.meets_add h h'
  | subtract | multiply => exact Value.NumberRule.meets_apply (fun _ _ => Value.meets_ofInt _) v w
  | divide =>
    rw [apply, Value.divide]
    split
    · exact meets_error _
    · refine Value.NumberRule.meets_apply (fun a b => ?_) v w
      change (Value.NumberRule.divideIntegers a b).Meets Value.Canonical
      rw [Value.NumberRule.divideIntegers]
      split <;> exact meets_ok trivial
  | modulo =>
    rw [apply, Value.modulo]
    split
    · exact meets_error _
    · refine Value.NumberRule.meets_apply (fun a b => ?_) v w
      change (Value.NumberRule.moduloIntegers a b).Meets Value.Canonical
      rw [Value.NumberRule.moduloIntegers]
      split
      · exact Value.meets_ofInt _
      · exact meets_refuse _

theorem Value.meets_negate (v : Value) : v.negate.Meets Canonical := by
  fun_cases negate v
  · exact meets_ofInt _
  · exact meets_ok trivial
  · exact meets_refuse _

theorem Value.meets_access (h : v.Canonical) (key : Value) : (v.access key).Meets Canonical := by
  have field {fields : List (String × Value)} (h : (object fields).Canonical) (key : String) :
      ((Fields.get? key fields).getD null).Canonical :=
    canonical_getD (fun _ found => Fields.of_get? (canonical_object.1 h).2 found) trivial
  fun_cases access v key
  · exact meets_ok (field h _)
  · exact meets_ok (field h _)
  · exact meets_ok (field h _)
  · exact meets_ok (field h _)
  · refine meets_ok (canonical_getD (fun item found => canonical_array.1 h item ?_) trivial)
    rw [Option.mem_def, itemAt?] at found
    split at found
    · split at found
      · exact List.mem_of_getElem? found
      · cases found
    · exact List.mem_of_getElem? found
  · exact meets_ok trivial
  · exact meets_ok trivial
  · exact meets_ok trivial
  · exact meets_refuse _
  · exact meets_refuse _

end Operators

namespace Arguments

variable {P : Value → Prop} {name : String} {args : List Value}

theorem meets_one {f : Value → Evaluated Value} (h : ∀ v ∈ args, (f v).Meets P) :
    (one name args f).Meets P := by
  fun_cases one name args f
  · exact h _ (by simp)
  · exact meets_refuse _

theorem meets_two {f : Value → Value → Evaluated Value} (h : ∀ v w, (f v w).Meets P) :
    (two name args f).Meets P := by
  fun_cases two name args f
  · exact h _ _
  · exact meets_refuse _

theorem meets_oneOrTwo {f : Value → Option Value → Evaluated Value}
    (h : ∀ v, ∀ w? : Option Value, (∀ w ∈ w?, w ∈ args) → (f v w?).Meets P) :
    (oneOrTwo name args f).Meets P := by
  fun_cases oneOrTwo name args f
  · exact h _ _ (by simp)
  · exact h _ _ (by simp)
  · exact meets_refuse _

theorem meets_atMostOne {f : Option Value → Evaluated Value} (h : ∀ v?, (f v?).Meets P) :
    (atMostOne name args f).Meets P := by
  fun_cases atMostOne name args f
  · exact h _
  · exact h _
  · exact meets_refuse _

end Arguments

namespace Value

variable {v w : Value} {items : List Value}

theorem meets_asArray (callee : Callee) (h : v.Canonical) :
    (v.asArray callee).Meets fun items => ∀ item ∈ items, item.Canonical := by
  fun_cases asArray callee v
  · exact meets_ok (canonical_array.1 h)
  · exact meets_refuse _

theorem meets_asObject (callee : Callee) (h : v.Canonical) :
    (v.asObject callee).Meets fun fields => (object fields).Canonical := by
  fun_cases asObject callee v
  · exact meets_ok h
  · exact meets_refuse _

theorem meets_sumFrom {decimals : DecimalLibrary} {total : Value} (h : total.Canonical)
    (h' : ∀ item ∈ items, item.Canonical) : (sumFrom decimals total items).Meets Canonical := by
  induction items generalizing total with
  | nil => exact meets_ok h
  | cons item later ih =>
    obtain ⟨here, others⟩ := List.forall_mem_cons.1 h'
    rw [sumFrom]
    split
    · exact meets_refuse _
    · exact (meets_add h here).bind fun _ sum => ih sum others

theorem meets_extremeOf (name : String) (wanted : Ordering) (h : ∀ item ∈ items, item.Canonical) :
    (extremeOf name wanted items).Meets Canonical := by
  have from' {best : Value} {later : List Value} (h : best.Canonical)
      (h' : ∀ item ∈ later, item.Canonical) : (extremeFrom name wanted best later).Meets Canonical := by
    induction later generalizing best with
    | nil => exact meets_ok h
    | cons item later ih =>
      obtain ⟨here, others⟩ := List.forall_mem_cons.1 h'
      rw [extremeFrom]
      split
      · split
        · exact ih here others
        · exact ih h others
      · exact meets_refuse _
  cases items with
  | nil => exact meets_ok trivial
  | cons item later => exact from' (h item (by simp)) fun v member => h v (by simp [member])

theorem meets_sortByKey {α : Type} {P : α → Prop} {sort : StableSort} {reverse : Bool}
    {items : List (Value × α)} (h : ∀ item ∈ items, P item.2) :
    (sortByKey sort reverse items).Meets fun sorted => ∀ item ∈ sorted, P item := by
  rw [sortByKey]
  split
  · rename_i sorted run
    obtain ⟨order, -, rfl⟩ := sortKeyed_ok.1 run
    refine meets_ok fun item member => ?_
    obtain ⟨keyed, among, rfl⟩ := List.mem_map.1 member
    obtain ⟨place, -, rfl⟩ := List.mem_map.1 among
    exact h _ (items.get_mem place)
  · exact meets_refuse _
  · exact meets_error _

theorem meets_values (h : v.Canonical) : v.values.Meets Canonical := by
  refine (meets_asObject _ h).bind fun fields canonical => meets_ok (canonical_array.2 ?_)
  intro item member
  obtain ⟨field, among, rfl⟩ := List.mem_map.1 member
  exact (canonical_object.1 canonical).2 field among

theorem meets_keys (v : Value) : v.keys.Meets Canonical := by
  refine meets_bind fun fields => meets_ok (canonical_array.2 ?_)
  intro item member
  obtain ⟨field, -, rfl⟩ := List.mem_map.1 member
  trivial

theorem meets_items (h : v.Canonical) : v.items.Meets Canonical := by
  refine (meets_asObject _ h).bind fun fields canonical => meets_ok (canonical_array.2 ?_)
  intro item member
  obtain ⟨field, among, rfl⟩ := List.mem_map.1 member
  have part := (canonical_object.1 canonical).2 field among
  exact canonical_array.2 (by simp [part])

theorem meets_rounded (decimals : DecimalLibrary) (v : Value) (places : Option Value) :
    (rounded decimals v places).Meets Canonical := by
  unfold rounded
  dsimp only
  split
  all_goals
    refine meets_bind fun places => ?_
    split
    · exact meets_ok trivial
    · exact meets_ok trivial
    · exact meets_ok trivial
    · exact meets_refuse _

theorem meets_getOr {key default : Value} (h : v.Canonical) (h' : default.Canonical) :
    (v.getOr key default).Meets Canonical := by
  fun_cases getOr v key default
  · exact meets_ok
      (canonical_getD (fun _ found => Fields.of_get? (canonical_object.1 h).2 found) h')
  · refine (meets_access h key).bind fun found canonical => ?_
    split
    · exact meets_ok h'
    · exact meets_ok canonical
  · exact meets_refuse _

theorem meets_get {args : List Value} {named : List (String × Value)} (h : v.Canonical)
    (h' : ∀ arg ∈ args, arg.Canonical) (h'' : ∀ option ∈ named, option.2.Canonical) :
    (v.get args named).Meets Canonical := by
  refine Arguments.meets_oneOrTwo fun key default? given => meets_getOr h (canonical_getD ?_ trivial)
  intro default found
  cases default? with
  | some value =>
    cases found
    exact h' _ (given _ rfl)
  | none => exact Fields.of_get? h'' found

theorem meets_update {args : List Value} (h : v.Canonical) (h' : ∀ arg ∈ args, arg.Canonical) :
    (v.update args).Meets Canonical := by
  refine Arguments.meets_one fun changes member => ?_
  refine (meets_asObject _ h).bind fun fields canonical => ?_
  refine (meets_asObject _ (h' changes member)).bind fun changes canonical' => ?_
  exact meets_ok (canonical_merge canonical (canonical_object.1 canonical').2)

theorem meets_strip (v : Value) (args : List Value) : (v.strip args).Meets Canonical := by
  refine meets_bind fun s => Arguments.meets_atMostOne fun unwanted? => ?_
  cases unwanted? with
  | none => exact meets_ok trivial
  | some unwanted => exact meets_bind fun _ => meets_ok trivial

theorem meets_split (v : Value) (args : List Value) : (v.split args).Meets Canonical := by
  have pieces (texts : List (List Char)) :
      (array (texts.map fun text => string (String.ofList text))).Canonical := by
    refine canonical_array.2 fun item member => ?_
    obtain ⟨text, -, rfl⟩ := List.mem_map.1 member
    trivial
  refine meets_bind fun s => Arguments.meets_atMostOne fun separator? => ?_
  cases separator? with
  | none => exact meets_ok (pieces _)
  | some separator =>
    refine meets_bind fun text => ?_
    split
    · exact meets_refuse _
    · exact meets_ok (pieces _)

theorem meets_hasAffix (name : String) (test : List Char → List Char → Bool) (v : Value)
    (args : List Value) : (v.hasAffix name test args).Meets Canonical :=
  meets_bind fun _ => Arguments.meets_one fun _ _ => meets_bind fun _ => meets_ok trivial

end Value

section Calls

variable {platform : Platform} {v : Value} {args : List Value} {named : List (String × Value)}

theorem Builtin.meets_apply (f : Builtin) (h : ∀ arg ∈ args, arg.Canonical) :
    (f.apply platform args named).Meets Value.Canonical := by
  have extreme (name : String) (wanted : Ordering) :
      (Value.extreme name wanted args).Meets Value.Canonical := by
    fun_cases Value.extreme name wanted args
    · exact meets_refuse _
    · exact (Value.meets_asArray _ (h _ (by simp))).bind fun _ => Value.meets_extremeOf name wanted
    · exact Value.meets_extremeOf name wanted h
  cases f with
  | len =>
    refine Arguments.meets_one fun v _ => ?_
    fun_cases Value.length v <;> first | exact meets_ok trivial | exact meets_refuse _
  | str => exact Arguments.meets_one fun v _ => meets_ok trivial
  | int =>
    refine Arguments.meets_one fun v _ => ?_
    fun_cases Value.toInteger v <;> first | exact meets_ok trivial | exact meets_refuse _
  | float =>
    refine Arguments.meets_one fun v _ => ?_
    fun_cases Value.toDouble v <;> first | exact meets_ok trivial | exact meets_refuse _
  | abs =>
    refine Arguments.meets_one fun v _ => ?_
    fun_cases Value.absolute v <;> first | exact meets_ok trivial | exact meets_refuse _
  | round => exact Arguments.meets_oneOrTwo fun v places _ => Value.meets_rounded _ v places
  | sum =>
    exact Arguments.meets_one fun v member =>
      (Value.meets_asArray _ (h v member)).bind fun _ => Value.meets_sumFrom trivial
  | min | max => exact extreme _ _
  | sorted =>
    refine Arguments.meets_one fun v member =>
      (Value.meets_asArray _ (h v member)).bind fun items canonical => ?_
    have keyed : ∀ item ∈ items.map fun item => (item, item), item.2.Canonical := by
      intro item among
      obtain ⟨v, inside, rfl⟩ := List.mem_map.1 among
      exact canonical v inside
    exact (Value.meets_sortByKey keyed).bind fun _ sorted => meets_ok (Value.canonical_array.2 sorted)
  | keys => exact Arguments.meets_one fun v _ => Value.meets_keys v
  | values => exact Arguments.meets_one fun v member => Value.meets_values (h v member)
  | age =>
    refine Arguments.meets_one fun v _ => ?_
    fun_cases Value.age platform.calendar v <;> first | exact meets_ok trivial | exact meets_refuse _

theorem meets_callFunction (name : String) (h : ∀ arg ∈ args, arg.Canonical) :
    (callFunction platform name args named).Meets Value.Canonical := by
  rw [callFunction]
  split
  · exact Builtin.meets_apply _ h
  · exact meets_error _

theorem MathFunction.meets_inRange (x : Float) : (inRange x).Meets Value.Canonical := by
  rw [inRange]
  split
  · exact meets_refuse _
  · exact meets_ok trivial

theorem MathFunction.meets_logarithm (f : MathFunction) (ofFloat : Float → Float) (v : Value) :
    (f.logarithm ofFloat v).Meets Value.Canonical := by
  refine meets_bind fun x => ?_
  split
  · exact meets_refuse _
  · exact meets_inRange _

theorem MathFunction.meets_logarithmTo (f : MathFunction) (v : Value) (base : Option Value) :
    (f.logarithmTo v base).Meets Value.Canonical := by
  cases base with
  | none => exact f.meets_logarithm _ v
  | some base =>
    refine meets_bind fun x => ?_
    dsimp only
    split
    · exact meets_error _
    · refine meets_bind fun b => ?_
      split
      · exact meets_error _
      · split
        · exact meets_error _
        · exact meets_inRange _

theorem MathFunction.meets_toWhole (f : MathFunction) (round : Float → Int) (v : Value) :
    (f.toWhole round v).Meets Value.Canonical := by
  fun_cases toWhole f round v
  · exact meets_ok trivial
  · refine meets_bind fun x => ?_
    split
    · exact meets_ok trivial
    · exact meets_refuse _

theorem meets_callMath (name : String) (args : List Value) :
    (callMath name args).Meets Value.Canonical := by
  rw [callMath]
  split
  · rename_i f _
    cases f with
    | floor | ceil => exact Arguments.meets_one fun v _ => MathFunction.meets_toWhole _ _ v
    | sqrt =>
      refine Arguments.meets_one fun v _ => meets_bind fun x => ?_
      split
      · exact meets_refuse _
      · exact MathFunction.meets_inRange _
    | exp => exact Arguments.meets_one fun v _ => meets_bind fun _ => MathFunction.meets_inRange _
    | log => exact Arguments.meets_oneOrTwo fun v base _ => MathFunction.meets_logarithmTo _ v base
    | log2 | log10 => exact Arguments.meets_one fun v _ => MathFunction.meets_logarithm _ _ v
    | pow =>
      refine Arguments.meets_two fun v w => meets_bind fun base => meets_bind fun exponent => ?_
      split
      · exact meets_refuse _
      · exact MathFunction.meets_inRange _
  · exact meets_error _

theorem meets_mathConstant (name : String) : (mathConstant name).Meets Value.Canonical := by
  fun_cases mathConstant name <;> first | exact meets_ok trivial | exact meets_error _

theorem meets_callMethod (name : String) (h : v.Canonical) (h' : ∀ arg ∈ args, arg.Canonical)
    (h'' : ∀ option ∈ named, option.2.Canonical) :
    (callMethod v name args named).Meets Value.Canonical := by
  rw [callMethod]
  split
  · rename_i m _
    cases m with
    | get => exact Value.meets_get h h' h''
    | keys => exact Value.meets_keys v
    | values => exact Value.meets_values h
    | items => exact Value.meets_items h
    | update => exact Value.meets_update h h'
    | lower | upper => exact meets_bind fun _ => meets_ok trivial
    | strip => exact Value.meets_strip v args
    | split => exact Value.meets_split v args
    | startswith | endswith => exact Value.meets_hasAffix _ _ v args
  · exact meets_error _

end Calls

namespace Expr

variable {platform : Platform} {input : Value}

mutual

theorem meets_eval (h : input.Canonical) (e : Expr) :
    (e.eval platform input).Meets Value.Canonical := by
  match e with
  | integer _ | float _ | string _ | boolean _ | null =>
    rw [eval]
    exact meets_ok trivial
  | record =>
    rw [eval]
    exact meets_ok h
  | bare s =>
    rw [eval]
    exact meets_error _
  | attr base name =>
    rw [eval]
    split
    · exact meets_mathConstant name
    · exact (meets_eval h base).bind fun _ canonical => Value.meets_access canonical _
  | index base key =>
    rw [eval]
    exact (meets_eval h base).bind fun _ canonical => meets_bind fun key => Value.meets_access canonical key
  | call function args named =>
    rw [eval]
    refine (meets_evalAll h args).bind fun _ args => (meets_evalNamed h named).bind fun _ named => ?_
    split
    · exact meets_callFunction _ args
    · rename_i base name
      split
      · exact meets_callMath name _
      · exact (meets_eval h base).bind fun _ canonical => meets_callMethod name canonical args named
    · exact meets_refuse _
  | binary op left right =>
    rw [eval]
    refine (meets_eval h left).bind fun a canonical => ?_
    split
    · split
      · exact meets_bind fun _ => meets_ok trivial
      · exact meets_ok trivial
    · split
      · exact meets_ok trivial
      · exact meets_bind fun _ => meets_ok trivial
    · exact (meets_eval h right).bind fun b canonical' => Operator.meets_apply _ canonical canonical'
  | not operand =>
    rw [eval]
    exact meets_bind fun _ => meets_ok trivial
  | negate operand =>
    rw [eval]
    exact meets_bind fun v => Value.meets_negate v
  | array items =>
    rw [eval]
    exact (meets_evalAll h items).bind fun _ items => meets_ok (Value.canonical_array.2 items)
  | tuple items =>
    rw [eval]
    exact (meets_evalAll h items).bind fun _ items => meets_ok (Value.canonical_array.2 items)
  | object fields =>
    rw [eval]
    exact (meets_evalFields h fields).bind fun _ fields => meets_ok (Value.canonical_ofList fields)

theorem meets_evalAll (h : input.Canonical) (es : List Expr) :
    (evalAll platform input es).Meets fun items => ∀ item ∈ items, item.Canonical := by
  match es with
  | [] =>
    rw [evalAll]
    exact meets_ok (by simp)
  | e :: later =>
    rw [evalAll]
    exact (meets_eval h e).bind fun _ here => (meets_evalAll h later).bind fun _ others =>
      meets_ok (List.forall_mem_cons.2 ⟨here, others⟩)

theorem meets_evalNamed (h : input.Canonical) (named : List (String × Expr)) :
    (evalNamed platform input named).Meets fun items => ∀ item ∈ items, item.2.Canonical := by
  match named with
  | [] =>
    rw [evalNamed]
    exact meets_ok (by simp)
  | (name, e) :: later =>
    rw [evalNamed]
    exact (meets_eval h e).bind fun _ here => (meets_evalNamed h later).bind fun _ others =>
      meets_ok (List.forall_mem_cons.2 ⟨here, others⟩)

theorem meets_evalFields (h : input.Canonical) (fields : List (Expr × Expr)) :
    (evalFields platform input fields).Meets fun pairs => ∀ pair ∈ pairs, pair.2.Canonical := by
  match fields with
  | [] =>
    rw [evalFields]
    exact meets_ok (by simp)
  | (key, e) :: later =>
    rw [evalFields]
    refine meets_bind fun key => ?_
    exact (meets_eval h e).bind fun _ here => (meets_evalFields h later).bind fun _ others =>
      meets_ok (List.forall_mem_cons.2 ⟨here, others⟩)

end

end Expr

/-- Evaluation keeps the fields of objects in key order. -/
theorem Callable.meets_eval {platform : Platform} {input : Value} (h : input.Canonical) (c : Callable) :
    (c.eval platform input).Meets Value.Canonical := by
  fun_cases Callable.eval platform input c
  · exact meets_ok h
  · exact Expr.meets_eval h _
  · exact (Expr.meets_evalAll h _).map fun _ items => Value.canonical_array.2 items

end RecordPipeline
