import RecordPipeline.SyntaxTree.Parser

/-!
Parsers one step at a time. Forward, a step that succeeds can be taken off the front of a sequence;
backward, a sequence that succeeded did so step by step. A stream is `Ended` when the end of the
input is its last token and no other, as it is for the tokens of a text.
-/

namespace RecordPipeline

theorem except_bind_ok {ε α β : Type} {x : Except ε α} {f : α → Except ε β} {b : β} :
    (x >>= f) = .ok b ↔ ∃ a, x = .ok a ∧ f a = .ok b := by
  cases x with
  | error e => simp [bind, Except.bind]
  | ok a => simp [bind, Except.bind]

theorem except_map_ok {ε α β : Type} {x : Except ε α} {f : α → β} {b : β} :
    x.map f = .ok b ↔ ∃ a, x = .ok a ∧ f a = b := by
  cases x with
  | error e => simp [Except.map]
  | ok a => simp [Except.map]

namespace Parser

variable {α β : Type} {p : Parser α} {f : α → Parser β} {s t u : TokenStream}

theorem bind_of_ok {a : α} (h : p s = (.ok a, t)) : (p >>= f) s = f a t := by
  rw [bind_apply, h]

theorem bind_ok {b : β} :
    (p >>= f) s = (.ok b, u) ↔ ∃ a t, p s = (.ok a, t) ∧ f a t = (.ok b, u) := by
  rw [bind_apply]
  constructor
  · intro h
    split at h
    · exact ⟨_, _, ‹_›, h⟩
    · cases h
  · rintro ⟨a, t, first, second⟩
    rw [first]
    exact second

@[simp] theorem peek_bind (g : TokenKind → Parser β) : (peek >>= g) s = g s.kind s := rfl

@[simp] theorem take_bind (g : Node → Parser β) :
    (take >>= g) s = g (.leaf s.current) s.advance := rfl

@[simp] theorem bounded_bind {loop : List Token → Parser α} :
    (bounded loop >>= f) s = (loop s.later >>= f) s := rfl

@[simp] theorem pure_ok {a b : α} : (pure a : Parser α) s = (.ok b, t) ↔ a = b ∧ s = t := by
  simp [pure_apply]

theorem require_ok {kind : TokenKind} {wanted : String} {node : Node}
    (h : require kind wanted s = (.ok node, t)) :
    s.kind = kind ∧ node = .leaf s.current ∧ t = s.advance := by
  simp only [require, peek_bind] at h
  split at h
  · cases h
    exact ⟨‹_›, rfl, rfl⟩
  · cases h

end Parser

namespace TokenStream

@[simp] theorem kind_ofTokens (t : Token) (ts : List Token) : (ofTokens (t :: ts)).kind = t.kind :=
  rfl

@[simp] theorem current_ofTokens (t : Token) (ts : List Token) :
    (ofTokens (t :: ts)).current = t := rfl

@[simp] theorem later_ofTokens (t : Token) (ts : List Token) : (ofTokens (t :: ts)).later = ts :=
  rfl

@[simp] theorem ofTokens_toList (s : TokenStream) : ofTokens s.toList = s := rfl

theorem advance_ofTokens {t : Token} {ts : List Token} (h : t.kind ≠ .endOfInput)
    (more : ts ≠ []) : (ofTokens (t :: ts)).advance = ofTokens ts := by
  match ts, more with
  | _ :: _, _ => simp [advance, ofTokens, kind, h]

/-- The end of the input is the last token and no other. -/
def Ended (s : TokenStream) : Prop :=
  ∃ body last, s.toList = body ++ [last] ∧ last.kind = .endOfInput ∧
    ∀ t ∈ body, t.kind ≠ .endOfInput

theorem Ended.advance {s : TokenStream} (ended : s.Ended) (h : s.kind ≠ .endOfInput) :
    s.toList = s.current :: s.advance.toList ∧ s.advance.Ended := by
  obtain ⟨body, last, spelled, lastKind, bodyKinds⟩ := ended
  cases body with
  | nil =>
    simp only [toList, List.nil_append, List.cons.injEq] at spelled
    exact absurd (by rw [kind, spelled.1, lastKind]) h
  | cons first body =>
    simp only [toList, List.cons_append, List.cons.injEq] at spelled
    have more : s.later ≠ [] := by simp [spelled.2]
    have moved : s.advance.toList = s.later := toList_advance h more
    refine ⟨by rw [moved]; rfl, body, last, moved.trans spelled.2, lastKind, fun t member => ?_⟩
    exact bodyKinds t (List.mem_cons_of_mem _ member)

theorem Ended.last {s : TokenStream} (ended : s.Ended) (h : s.kind = .endOfInput) :
    s.toList = [s.current] := by
  obtain ⟨body, last, spelled, lastKind, bodyKinds⟩ := ended
  cases body with
  | nil =>
    simp only [toList, List.nil_append, List.cons.injEq] at spelled
    simp [toList, spelled.2]
  | cons first body =>
    simp only [toList, List.cons_append, List.cons.injEq] at spelled
    exact absurd (by rw [← spelled.1]; exact h) (bodyKinds first (by simp))

end TokenStream

namespace Parser

open TokenStream

variable {t : Token} {ts : List Token}

theorem take_ofTokens (h : t.kind ≠ .endOfInput) (more : ts ≠ []) :
    take (ofTokens (t :: ts)) = (.ok (.leaf t), ofTokens ts) := by
  rw [take, source_advance, advance_ofTokens h more]
  rfl

theorem require_ofTokens {kind : TokenKind} (wanted : String) (same : t.kind = kind)
    (h : kind ≠ .endOfInput) (more : ts ≠ []) :
    require kind wanted (ofTokens (t :: ts)) = (.ok (.leaf t), ofTokens ts) := by
  simp only [require, peek_bind, kind_ofTokens, same, if_true]
  exact take_ofTokens (same ▸ h) more

theorem symbolAmong_of_mem {kinds : List TokenKind} (h : t.kind ∈ kinds)
    (notEnd : t.kind ≠ .endOfInput) (more : ts ≠ []) :
    symbolAmong kinds (ofTokens (t :: ts)) = (.ok (some (.leaf t)), ofTokens ts) := by
  simp only [symbolAmong, peek_bind, kind_ofTokens, List.contains_iff_mem.2 h, if_true]
  rw [bind_of_ok (take_ofTokens notEnd more)]
  rfl

theorem symbolAmong_of_not_mem {kinds : List TokenKind} (h : t.kind ∉ kinds) :
    symbolAmong kinds (ofTokens (t :: ts)) = (.ok none, ofTokens (t :: ts)) := by
  simp [symbolAmong, h, pure_apply]

end Parser

end RecordPipeline
