import RecordPipeline.Eval
import RecordPipeline.Platform.Reference

/-!
The method `get` beside the index: what is stored under a key or at a position, or else a default.
For objects the default stands in for a missing field only. For arrays it does so for an item that is
`null` as well, since the index tells no such item from a missing one.
-/

namespace RecordPipeline

namespace Value

/-- The place that a position stands for in a list of that length: negative positions count from the
end. -/
def Addresses (length : Nat) (n : Int) (place : Nat) : Prop :=
  place < length ∧ ((place : Int) = n ∨ (place : Int) = n + length)

section Items

variable {α : Type} {items : List α} {n : Int}

theorem itemAt?_of_addresses {place : Nat} (addressed : Addresses items.length n place) :
    itemAt? items n = items[place]? := by
  obtain ⟨inside, front | back⟩ := addressed
  · rw [itemAt?, if_neg (by omega), ← front, Int.toNat_natCast]
  · rw [itemAt?, if_pos (by omega), if_pos (by omega),
      show items.length - n.natAbs = place by omega]

theorem itemAt?_eq_none (outside : ∀ place, ¬Addresses items.length n place) :
    itemAt? items n = none := by
  rw [itemAt?]
  split
  · rename_i negative
    have beyond : ¬n.natAbs ≤ items.length := fun within =>
      outside (items.length - n.natAbs) ⟨by omega, .inr (by omega)⟩
    rw [if_neg beyond]
  · rename_i positive
    have beyond : ¬n.toNat < items.length := fun within =>
      outside n.toNat ⟨within, .inl (by omega)⟩
    exact List.getElem?_eq_none (Nat.not_lt.1 beyond)

end Items

variable {fields : List (String × Value)} {items : List Value} {n : Int64} {name : String}
  {v default : Value}

theorem getOr_object :
    (object fields).getOr (string name) default = .ok ((Fields.get? name fields).getD default) :=
  rfl

theorem access_array :
    (array items).access (integer n) = .ok ((itemAt? items n.toInt).getD null) := by
  rw [access]

theorem getOr_array (stored : (itemAt? items n.toInt).getD null = v) (filled : v ≠ null) :
    (array items).getOr (integer n) default = .ok v := by
  rw [getOr, access_array, stored]
  cases v with
  | null => exact absurd rfl filled
  | _ => rfl

theorem getOr_array_null (stored : (itemAt? items n.toInt).getD null = null) :
    (array items).getOr (integer n) default = .ok default := by
  rw [getOr, access_array, stored]
  rfl

end Value

namespace Expr

variable {platform : Platform} {input container k d : Value} {base key default e : Expr}

/-- The ways to ask a container for what is stored under a key, with a default. -/
inductive GetsOr (base key default : Expr) : Expr → Prop
  | placed : GetsOr base key default (call (attr base "get") [key, default] [])
  | named : GetsOr base key default (call (attr base "get") [key] [("default", default)])

theorem isMath_of_eval (read : base.eval platform input = .ok container) : base.isMath = false := by
  cases base with
  | bare name =>
    rw [eval] at read
    cases read
  | _ => rfl

theorem eval_getsOr (asks : GetsOr base key default e) (read : base.eval platform input = .ok container)
    (keyRead : key.eval platform input = .ok k) (defaultRead : default.eval platform input = .ok d) :
    e.eval platform input = container.getOr k d := by
  cases asks with
  | placed =>
    rw [eval, evalAll, evalAll, evalAll, evalNamed, keyRead, defaultRead]
    simp only [isMath_of_eval read, read]
    rfl
  | named =>
    rw [eval, evalAll, evalAll, evalNamed, evalNamed, keyRead, defaultRead]
    simp only [isMath_of_eval read, read]
    rfl

theorem eval_index (read : base.eval platform input = .ok container)
    (keyRead : key.eval platform input = .ok k) :
    (index base key).eval platform input = container.access k := by
  rw [eval, read, keyRead]
  rfl

/-- A field is given whatever it is, and the default if there is none. An item is given, as the index
gives it, unless it is `null`; then the default is given, as it is where no item is addressed. -/
theorem eval_get_default (platform : Platform) (input : Value) {base key default e : Expr}
    (asks : GetsOr base key default e) {container k d : Value}
    (read : base.eval platform input = .ok container) (keyRead : key.eval platform input = .ok k)
    (defaultRead : default.eval platform input = .ok d) :
    (∀ fields name, container = .object fields → k = .string name →
      (∀ v, Fields.get? name fields = some v →
        (index base key).eval platform input = .ok v ∧ e.eval platform input = .ok v) ∧
      (Fields.get? name fields = none → e.eval platform input = .ok d)) ∧
    ∀ items n, container = .array items → k = .integer n →
      (∀ place v, Value.Addresses items.length n.toInt place → items[place]? = some v →
        (index base key).eval platform input = .ok v ∧
          (v ≠ .null → e.eval platform input = .ok v) ∧ (v = .null → e.eval platform input = .ok d)) ∧
      ((∀ place, ¬Value.Addresses items.length n.toInt place) → e.eval platform input = .ok d) := by
  rw [eval_getsOr asks read keyRead defaultRead, eval_index read keyRead]
  constructor
  · rintro fields name rfl rfl
    rw [Value.getOr_object, Value.access]
    refine ⟨fun v stored => ?_, fun missing => ?_⟩
    · rw [stored]
      exact ⟨rfl, rfl⟩
    · rw [missing]
      rfl
  · rintro items n rfl rfl
    refine ⟨fun place v addressed stored => ?_, fun outside => ?_⟩
    · have found : (Value.itemAt? items n.toInt).getD .null = v := by
        rw [Value.itemAt?_of_addresses addressed, stored, Option.getD_some]
      refine ⟨?_, fun filled => Value.getOr_array found filled, fun empty => ?_⟩
      · rw [Value.access_array, found]
      · exact Value.getOr_array_null (found.trans empty)
    · refine Value.getOr_array_null ?_
      rw [Value.itemAt?_eq_none outside, Option.getD_none]

/-- The first of two items, addressed from the end. -/
theorem eval_get_default_first :
    let base := array [string "a", null]
    let e := call (attr base "get") [negate (integer 2)] [("default", integer 0)]
    GetsOr base (negate (integer 2)) (integer 0) e ∧
      base.eval (.reference ⟨0, 0, 0⟩) .null = .ok (.array [.string "a", .null]) ∧
      (negate (integer 2)).eval (.reference ⟨0, 0, 0⟩) .null = .ok (.integer (-2)) ∧
      (integer 0).eval (.reference ⟨0, 0, 0⟩) .null = .ok (.integer 0) ∧
      Value.Addresses 2 (-2) 0 ∧ e.eval (.reference ⟨0, 0, 0⟩) .null = .ok (.string "a") := by
  intro base e
  have asks : GetsOr base (negate (integer 2)) (integer 0) e := .named
  have read : base.eval (.reference ⟨0, 0, 0⟩) .null = .ok (.array [.string "a", .null]) := rfl
  have keyRead : (negate (integer 2)).eval (.reference ⟨0, 0, 0⟩) .null = .ok (.integer (-2)) := rfl
  have addressed : Value.Addresses 2 (-2) 0 := ⟨by decide, .inr (by decide)⟩
  obtain ⟨stored, -⟩ := (eval_get_default (.reference ⟨0, 0, 0⟩) .null asks read keyRead rfl).2 _ _ rfl rfl
  obtain ⟨-, given, -⟩ := stored 0 (.string "a") addressed rfl
  exact ⟨asks, read, keyRead, rfl, addressed, given (by simp)⟩

/-- An item that is `null` is not given where there is a default. -/
theorem eval_get_null_item :
    let base := array [null]
    GetsOr base (integer 0) (integer 1) (call (attr base "get") [integer 0, integer 1] []) ∧
      base.eval (.reference ⟨0, 0, 0⟩) .null = .ok (.array [.null]) ∧ Value.Addresses 1 0 0 ∧
      (index base (integer 0)).eval (.reference ⟨0, 0, 0⟩) .null = .ok .null ∧
      (call (attr base "get") [integer 0, integer 1] []).eval (.reference ⟨0, 0, 0⟩) .null =
        .ok (.integer 1) := by
  refine ⟨.placed, rfl, ⟨by decide, .inl rfl⟩, rfl, ?_⟩
  rw [eval_getsOr .placed rfl rfl rfl]
  rfl

end Expr

end RecordPipeline
