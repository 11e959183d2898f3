import RecordPipeline.Proofs.Grammar.Correspondence
import RecordPipeline.SyntaxTree.Cursor

/-!
What a parser passes through. A recorded source keeps every state that it has been in, and the rules
run on it as on any other, so that something can be said of the middle of a run. Forgetting the record
is a correspondence: the run is the one without it.
-/

namespace RecordPipeline

structure Recorded (σ : Type) where
  now : σ
  past : List σ

namespace Recorded

variable {σ : Type}

def history (r : Recorded σ) : List σ :=
  r.now :: r.past

def step (move : σ → σ) (r : Recorded σ) : Recorded σ :=
  ⟨move r.now, r.history⟩

open TokenSource NestedSource

instance [NestedSource σ] : NestedSource (Recorded σ) where
  current r := current r.now
  nextKind? r := nextKind? r.now
  later r := later r.now
  advance := step advance
  depth r := depth r.now
  enter := step enter
  leave := step leave

theorem history_suffix_step (move : σ → σ) (r : Recorded σ) :
    r.history <:+ (r.step move).history :=
  List.suffix_cons ..

end Recorded

namespace Parser

open TokenSource NestedSource

variable {σ α β : Type}

/-- The second parser does without the record what the first does with it, and the first keeps what is
on the record. -/
abbrev Forgets [NestedSource σ] (kept : List σ) (f : α → β) (p : ParserOn (Recorded σ) α)
    (q : ParserOn σ β) : Prop :=
  Simulates Recorded.now (kept <:+ ·.history) f p q

def forgetting [NestedSource σ] (kept : List σ) : Correspondence (Recorded σ) σ where
  node := id
  place := id
  holds := Forgets kept
  branch := branch_map_id
  named := bareName?_id
  value := Simulates.value
  bind := Simulates.bind
  peek := Simulates.ask (fun r => (current r).kind) (fun s => (current s).kind) fun _ _ => rfl
  peekPair first second :=
    Simulates.ask (fun r => (current r).kind == first && nextKind? r == some second)
      (fun s => (current s).kind == first && nextKind? s == some second) fun _ _ => rfl
  offset := .look (fun _ => rfl) fun _ _ => rfl
  take r holds := ⟨rfl, holds.trans (r.history_suffix_step advance)⟩
  failAt _ _ _ := .look (fun _ => rfl) fun _ _ => rfl
  unexpected _ _ := .look (fun _ => rfl) fun _ _ => rfl
  bounded rest r := rest (later r) (later r) rfl r

theorem Forgets.nested [NestedSource σ] {kept : List σ} {f : α → β} {p : ParserOn (Recorded σ) α}
    {q : ParserOn σ β} (inner : Forgets kept f p q) : Forgets kept f (nested p) (nested q) := by
  intro r holds
  rcases Nat.lt_or_ge (depth r.now) maxNesting with room | full
  · obtain ⟨same, below⟩ := inner (enter r) (holds.trans (r.history_suffix_step enter))
    have same : q (enter r.now) = _ := same
    rw [nested_of_room (s := r) room, nested_of_room room, same]
    exact ⟨rfl, below.trans (Recorded.history_suffix_step leave _)⟩
  · rw [nested_of_full (s := r) full, nested_of_full full]
    exact ⟨rfl, holds⟩

theorem counted_forgets [NestedSource σ] (kept : List σ) (rounds : Nat) :
    (forgetting kept).Levels (counted rounds) (counted rounds) := by
  induction rounds with
  | zero =>
    have stops : Forgets kept (id : Node → Node) tooDeep tooDeep :=
      .look (fun _ => rfl) fun _ _ => rfl
    exact ⟨stops, stops, stops⟩
  | succ rounds ih =>
    exact ⟨ih.disjunction.nested, ih.denial.nested, ih.sign.nested⟩

end Parser

namespace StartSymbol

open RecordPipeline.Parser

theorem rule_holds {σ τ : Type} [TokenSource σ] [TokenSource τ] {R : Correspondence σ τ}
    {inner : LevelOn σ} {outer : LevelOn τ} (h : R.Levels inner outer) (symbol : StartSymbol) :
    R.holds R.node (symbol.rule inner) (symbol.rule outer) :=
  match symbol with
  | query => h.query
  | arguments => h.arguments
  | expression => h.expression

variable {σ : Type} [NestedSource σ]

/-- Every state of the source while it is asked for the symbol, the first one first. -/
def visited (symbol : StartSymbol) (s : σ) : List σ :=
  (symbol.parser (Recorded.mk s [])).2.history.reverse

theorem rule_forgets (symbol : StartSymbol) (kept : List σ) (rounds : Nat) :
    Forgets kept id (symbol.rule (counted rounds)) (symbol.rule (counted rounds)) :=
  rule_holds (counted_forgets kept rounds) symbol

theorem rule_recorded (symbol : StartSymbol) (rounds : Nat) (r : Recorded σ) :
    symbol.rule (counted rounds) r.now =
      ((symbol.rule (counted rounds) r).1, (symbol.rule (counted rounds) r).2.now) := by
  have same := (symbol.rule_forgets [] rounds r (List.nil_suffix ..)).1
  rwa [Except.map_id] at same

theorem parser_recorded (symbol : StartSymbol) (r : Recorded σ) :
    symbol.parser r.now = ((symbol.parser r).1, (symbol.parser r).2.now) :=
  symbol.rule_recorded (maxNesting + 1) r

theorem suffix_history (symbol : StartSymbol) (s : σ) :
    [s] <:+ (symbol.parser (Recorded.mk s [])).2.history :=
  (symbol.rule_forgets [s] (maxNesting + 1) (Recorded.mk s []) List.suffix_rfl).2

theorem head?_visited (symbol : StartSymbol) (s : σ) : (symbol.visited s).head? = some s := by
  obtain ⟨later, same⟩ := symbol.suffix_history s
  have first : (symbol.parser (Recorded.mk s [])).2.history = later ++ [s] := same.symm
  rw [visited, first, List.head?_reverse, List.getLast?_concat]

theorem getLast?_visited (symbol : StartSymbol) (s : σ) :
    (symbol.visited s).getLast? = some (symbol.parser s).2 := by
  rw [visited, List.getLast?_reverse, symbol.parser_recorded (Recorded.mk s [])]
  rfl

end StartSymbol

end RecordPipeline
