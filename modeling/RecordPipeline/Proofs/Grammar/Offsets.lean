import RecordPipeline.Proofs.Grammar.Correspondence
import RecordPipeline.Proofs.Lexing.Coverage

/-!
Where the faults of a text lie. The parser reports a fault at a token that it has met, and the tokens of
a text lie within it, the end of the input behind its last character. That a fault could be moved back
to a place that no token lies behind, without any change, is a correspondence of the parser with
itself.
-/

namespace RecordPipeline

open RecordPipeline.Parser

def Fault.upTo (last : Nat) (fault : Fault) : Fault :=
  ⟨fault.cause, min fault.offset last⟩

namespace TokenStream

variable {s : TokenStream} {last : Nat}

/-- No token lies behind that place. -/
def EndsBy (last : Nat) (s : TokenStream) : Prop :=
  ∀ t ∈ s.toList, t.offset ≤ last

theorem EndsBy.current (h : s.EndsBy last) : s.current.offset ≤ last :=
  h s.current (List.mem_cons_self ..)

theorem EndsBy.min_current (h : s.EndsBy last) : min s.current.offset last = s.current.offset :=
  Nat.min_eq_left h.current

theorem EndsBy.advance (h : s.EndsBy last) : s.advance.EndsBy last := by
  obtain ⟨current, later⟩ := s
  rw [TokenStream.advance]
  split
  · exact h
  · cases later with
    | nil => exact h
    | cons next later => exact fun t member => h t (List.mem_cons_of_mem current member)

end TokenStream

namespace Parser

variable {α β : Type} {last : Nat}

/-- On streams that end by that place, the second parser does what the first does, which reports no
fault behind it, and both leave a stream that ends by it. -/
def Points (last : Nat) (f : α → β) (p : Parser α) (q : Parser β) : Prop :=
  ∀ s, s.EndsBy last →
    q s = (((p s).1.map f).mapError (Fault.upTo last), (p s).2) ∧ (p s).2.EndsBy last

theorem Points.bind {γ δ : Type} {f : α → β} {g : γ → δ} {p : Parser α} {q : Parser β}
    {k : α → Parser γ} {l : β → Parser δ} (first : Points last f p q)
    (rest : ∀ a, Points last g (k a) (l (f a))) : Points last g (p >>= k) (q >>= l) := by
  intro s ends
  obtain ⟨same, ends⟩ := first s ends
  rw [bind_apply, bind_apply, same]
  generalize p s = run at ends ⊢
  obtain ⟨outcome, t⟩ := run
  cases outcome with
  | ok a => exact rest a t ends
  | error fault => exact ⟨rfl, ends⟩

theorem points_fault (f : α → β) {p : Parser α} {q : Parser β} (cause : TokenStream → Cause)
    (first : ∀ s, p s = (.error ⟨cause s, s.current.offset⟩, s))
    (second : ∀ s, q s = (.error ⟨cause s, s.current.offset⟩, s)) : Points last f p q := by
  intro s ends
  rw [first, second]
  have stays : Fault.mk (cause s) s.current.offset = Fault.upTo last ⟨cause s, s.current.offset⟩ :=
    congrArg (Fault.mk (cause s)) ends.min_current.symm
  exact ⟨congrArg (fun fault => (Except.error fault, s)) stays, ends⟩

def pointing (last : Nat) : Correspondence TokenStream TokenStream where
  node := id
  place offset := min offset last
  holds := Points last
  branch := branch_map_id
  named := bareName?_id
  value same _ ends := ⟨by rw [← same]; rfl, ends⟩
  bind := Points.bind
  peek rest s := rest s.kind s
  peekPair _ _ rest s := rest _ s
  offset s ends := ⟨congrArg (fun place => (Except.ok place, s)) ends.min_current.symm, ends⟩
  take s ends := ⟨rfl, ends.advance⟩
  failAt _ _ _ _ ends := ⟨rfl, ends⟩
  unexpected f wanted :=
    points_fault f (fun s => .expected wanted s.current.shown) (fun _ => rfl) fun _ => rfl
  bounded rest s := rest s.later s.later rfl s

theorem level_points (last levels : Nat) :
    (pointing last).Levels (level levels) (level levels) := by
  induction levels with
  | zero =>
    have stops : Points last (id : Node → Node) tooDeep tooDeep :=
      points_fault id (fun _ => .nestedTooDeeply) (fun _ => rfl) fun _ => rfl
    exact ⟨stops, stops, stops⟩
  | succ levels ih => exact ih.succ

theorem query_points (last : Nat) : Points last id query query :=
  (level_points last maxNesting).query

theorem arguments_points (last : Nat) : Points last id arguments arguments :=
  (level_points last maxNesting).arguments

end Parser

section Texts

variable {source : String} {fault : Fault}

theorem offset_le_of_tokenize {tokens : List Token} (read : tokenize source = .ok tokens) :
    ∀ t ∈ tokens, t.offset ≤ source.length := by
  have spelled : source.toList = [] ++ (Scanner.start source).ahead := rfl
  obtain ⟨-, -, -, covers⟩ := Scanner.covers_of_tokensWithin spelled rfl read
    (by simp [Scanner.start, String.length_toList])
  intro t member
  have inside := (covers.inside t member).2
  rw [String.length_toList] at inside
  omega

theorem offset_le_of_parse {α : Type} {p : Parser α} (points : Points source.length id p p)
    (h : p.parse source = .error fault) : fault.offset ≤ source.length := by
  rw [Parser.parse] at h
  cases read : tokenize source with
  | error early =>
    rw [read] at h
    cases h
    have spelled : source.toList = [] ++ (Scanner.start source).ahead := rfl
    have inside := (Scanner.covers_of_fault spelled rfl read).1
    rw [String.length_toList] at inside
    exact Nat.le_of_lt inside
  | ok tokens =>
    rw [read] at h
    have h : (p (.ofTokens tokens)).1 = .error fault := h
    have ends : (TokenStream.ofTokens tokens).EndsBy source.length := by
      intro t member
      cases tokens with
      | nil =>
        rw [TokenStream.ofTokens, TokenStream.toList, List.mem_singleton] at member
        rw [member]
        exact Nat.zero_le _
      | cons first later => exact offset_le_of_tokenize read t member
    have same := congrArg Prod.fst (points _ ends).1
    rw [h, Except.map_id] at same
    have kept : fault = fault.upTo source.length := Except.error.inj same
    rw [kept]
    exact Nat.min_le_right ..

end Texts

end RecordPipeline
