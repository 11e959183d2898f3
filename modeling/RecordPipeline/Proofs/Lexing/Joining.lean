import RecordPipeline.Proofs.Grammar
import RecordPipeline.Proofs.Lexing.Spelling
import RecordPipeline.TokenTree

/-!
Joined tokens spell what was joined. Two of them may meet without a blank only where one of the
characters that meet is tight, and no token is lengthened by what follows a tight character or
starts with one, as long as a name comes behind every dot.
-/

namespace RecordPipeline

open Text

namespace TokenKind

def symbol? : TokenKind → Option Char
  | openParen => some '('
  | closeParen => some ')'
  | openBracket => some '['
  | closeBracket => some ']'
  | openBrace => some '\x7b'
  | closeBrace => some '\x7d'
  | comma => some ','
  | colon => some ':'
  | plus => some '+'
  | minus => some '-'
  | star => some '*'
  | slash => some '/'
  | percent => some '%'
  | dot => some '.'
  | assign => some '='
  | less => some '<'
  | greater => some '>'
  | _ => none

theorem symbol?_of_ofSymbol {c : Char} {kind : TokenKind} (h : ofSymbol c = some kind) :
    kind.symbol? = some c := by
  unfold ofSymbol at h
  split at h <;> cases h <;> rfl

theorem ofPair_symbol? {c : Char} {kind : TokenKind} (h : ofPair c = some kind) :
    kind.symbol? = none := by
  unfold ofPair at h
  split at h <;> cases h <;> rfl

end TokenKind

theorem digit_cases {c : Char} (h : isDigit c = true) :
    c ∈ ['0', '1', '2', '3', '4', '5', '6', '7', '8', '9'] := by
  have bounds : 48 ≤ c.toNat ∧ c.toNat ≤ 57 := by
    simpa [isDigit, Char.le_def, UInt32.le_iff_toNat_le] using h
  have one : c.toNat = 48 ∨ c.toNat = 49 ∨ c.toNat = 50 ∨ c.toNat = 51 ∨ c.toNat = 52 ∨
      c.toNat = 53 ∨ c.toNat = 54 ∨ c.toNat = 55 ∨ c.toNat = 56 ∨ c.toNat = 57 := by omega
  rw [← Char.ofNat_toNat c]
  rcases one with h | h | h | h | h | h | h | h | h | h <;> rw [h] <;> decide

theorem not_quote_or_name_of_digit {c : Char} (h : isDigit c = true) :
    ¬(c = '"' || c = '\'') = true ∧ ¬startsName c = true := by
  have all : (['0', '1', '2', '3', '4', '5', '6', '7', '8', '9'].all fun c =>
      !(c = '"' || c = '\'') && !startsName c) = true := by decide
  have one := List.all_eq_true.1 all c (digit_cases h)
  rw [Bool.and_eq_true, Bool.not_eq_true', Bool.not_eq_true'] at one
  exact ⟨ne_true_of_eq_false one.1, ne_true_of_eq_false one.2⟩

namespace Lexeme

variable {kind : TokenKind} {text : List Char}

theorem text_of_symbol {c : Char} (h : Lexeme kind text) (symbol : kind.symbol? = some c) :
    text = [c] := by
  cases h.classified with
  | string => cases symbol
  | @word d cs =>
    have none : ∀ kind ∈ [TokenKind.name, .andWord, .orWord, .notWord, .inWord, .trueWord,
        .falseWord, .nullWord], kind.symbol? = none := by decide
    rw [none _ (ofWord_mem (String.ofList (d :: cs)))] at symbol
    cases symbol
  | number isNumber => rcases isNumber with rfl | rfl <;> cases symbol
  | symbol single =>
    rw [TokenKind.symbol?_of_ofSymbol single] at symbol
    cases symbol
    rfl
  | pair pair =>
    rw [TokenKind.ofPair_symbol? pair] at symbol
    cases symbol

theorem not_digit_of_word (h : Lexeme kind text) (word : kind ∈ Grammar.Symbol.words)
    (more : List Char) : startsWithDigit (text ++ more) = false := by
  obtain ⟨c, cs, rfl, -⟩ := h.starts
  by_cases digit : isDigit c = true
  · have scans := h.scans
    obtain ⟨noQuote, noName⟩ := not_quote_or_name_of_digit digit
    rw [scan_cons, if_neg noQuote, if_neg noName, if_pos digit] at scans
    rcases (scanned_number noQuote noName digit scans).1 with rfl | rfl <;>
      exact absurd word (by decide)
  · simpa [startsWithDigit] using digit

theorem dot_of_start {cs : List Char} (h : Lexeme kind ('.' :: cs)) : kind = .dot ∧ cs = [] := by
  have scans := h.scans
  rw [scan_cons, if_neg (by decide), if_neg (by decide), if_neg (by decide)] at scans
  rcases (scanned_symbol (by decide) (by decide) (by decide) scans).1 with
    ⟨same, single⟩ | ⟨-, pair⟩
  · cases same
    cases single
    exact ⟨rfl, rfl⟩
  · cases pair

end Lexeme

theorem spanNumber_last {isFloat : Bool} {cs : List Char} :
    ∀ d ∈ (spanNumber isFloat cs).text.getLast?, isDigit d = true := by
  have pushed {c : Char} {text : List Char} (all : ∀ d ∈ text.getLast?, isDigit d = true)
      (some : text = [] → isDigit c = true) : ∀ d ∈ (c :: text).getLast?, isDigit d = true := by
    intro d last
    cases text with
    | nil =>
      cases last
      exact some rfl
    | cons e text =>
      rw [List.getLast?_cons_cons] at last
      exact all d last
  have filled {cs : List Char} (digit : startsWithDigit cs = true) :
      (spanNumber true cs).text ≠ [] := by
    intro empty
    have again := startsWithDigit_spanNumber digit true []
    rw [empty] at again
    cases again
  fun_induction spanNumber isFloat cs with
  | case1 | case5 | case7 | case8 => simp
  | case2 isFloat c cs digit ih => exact pushed ih fun _ => digit
  | case3 isFloat c cs notDigit point ih =>
    simp only [Bool.and_eq_true] at point
    exact pushed ih fun empty => absurd empty (filled point.2)
  | case4 isFloat c cs notDigit notPoint exponent digits ih =>
    exact pushed ih fun empty => absurd empty (filled digits)
  | case6 isFloat c notDigit exponent sign digits signed notPoint notDigits ih =>
    simp only [Bool.and_eq_true] at signed
    refine pushed (pushed ih fun empty => absurd empty (filled signed.2)) ?_
    exact fun empty => absurd empty (List.cons_ne_nil _ _)

theorem tight_cases {c : Char} (h : isTight c = true) :
    continuesName c = false ∧ isDigit c = false ∧ c ≠ '=' := by
  have all : (['(', ')', '\x7b', '\x7d', '[', ']', ',', '.', ':', '"', '\''].all fun c =>
      !continuesName c && !isDigit c && c != '=') = true := by decide
  have one := List.all_eq_true.1 all c (List.contains_iff_mem.1 h)
  rw [Bool.and_eq_true, Bool.and_eq_true, Bool.not_eq_true', Bool.not_eq_true', bne_iff_ne] at one
  exact ⟨one.1.1, one.1.2, one.2⟩

theorem Lexeme.comma_of_last {kind : TokenKind} {text : List Char} (h : Lexeme kind text)
    (last : text.getLast? = some ',') : kind = .comma := by
  cases h.classified with
  | @string quote text isQuote closed =>
    rw [List.getLast?_cons, closed] at last
    cases last
    exact absurd isQuote (by decide)
  | @word c cs starts all =>
    have continues := all ',' (List.mem_of_getLast? last)
    exact absurd continues (by decide)
  | number => exact absurd (spanNumber_last ',' last) (by decide)
  | symbol single =>
    cases last
    cases single
    rfl
  | pair => cases last

theorem endsBefore_of_tight_end {kind : TokenKind} {text rest : List Char}
    (h : Lexeme kind text) (tight : ∀ c ∈ text.getLast?, isTight c = true)
    (named : kind = .dot → startsWithDigit rest = false) : kind.endsBefore rest = true := by
  cases h.classified with
  | string => rfl
  | @word d cs starts all =>
    obtain ⟨last, found⟩ : ∃ last, (d :: cs).getLast? = some last :=
      ⟨_, List.getLast?_eq_some_getLast (List.cons_ne_nil d cs)⟩
    have continues := all last (List.mem_of_getLast? found)
    rw [(tight_cases (tight last found)).1] at continues
    cases continues
  | @number _ cs isNumber =>
    obtain ⟨last, found⟩ : ∃ last, (spanNumber false cs).text.getLast? = some last :=
      ⟨_, List.getLast?_eq_some_getLast h.ne_nil⟩
    have digit := spanNumber_last last found
    rw [(tight_cases (tight last found)).2.1] at digit
    cases digit
  | @symbol kind c single =>
    have noAssign := (tight_cases (tight c rfl)).2.2
    unfold TokenKind.ofSymbol at single
    split at single <;> cases single
    all_goals first
      | rfl
      | simpa [TokenKind.endsBefore] using named rfl
      | exact absurd (tight _ rfl) (by decide)
  | pair pair =>
    unfold TokenKind.ofPair at pair
    split at pair <;> cases pair <;> rfl

theorem endsBefore_of_tight_start (kind : TokenKind) {c : Char} {rest : List Char}
    (tight : isTight c = true) (named : c = '.' → startsWithDigit rest = false) :
    kind ≠ .endOfInput → kind.endsBefore (c :: rest) = true := by
  obtain ⟨noName, noDigit, noAssign⟩ := tight_cases tight
  have noStart : startsName c = false := by
    rw [Bool.eq_false_iff]
    intro starts
    rw [continuesName_of_startsName starts] at noName
    cases noName
  have number (isFloat : Bool) : TokenKind.numberEnds isFloat (c :: rest) = true := by
    simp only [TokenKind.numberEnds, noStart, noDigit, Bool.not_false, Bool.true_and,
      Bool.not_eq_true']
    by_cases point : c = '.'
    · simp [named point]
    · simp [point]
  intro notEnd
  cases kind with
  | integer => exact number false
  | float => exact number true
  | trueWord | falseWord | nullWord | name | andWord | orWord | notWord | inWord =>
    simp [TokenKind.endsBefore, TokenKind.nameEnds, noName]
  | assign | less | greater => simpa [TokenKind.endsBefore] using noAssign
  | dot => simpa [TokenKind.endsBefore, startsWithDigit] using noDigit
  | endOfInput => exact absurd rfl notEnd
  | _ => rfl

theorem endsBefore_blank {kind : TokenKind} (rest : List Char) (notEnd : kind ≠ .endOfInput) :
    kind.endsBefore (' ' :: rest) = true := by
  cases kind with
  | endOfInput => exact absurd rfl notEnd
  | _ => rfl

/-- Behind every dot but the last token stands a name. -/
def Linked (ts : List Token) : Prop :=
  ∀ front t u back, ts = front ++ t :: u :: back → t.kind = .dot → u.kind ∈ Grammar.Symbol.words

theorem Linked.inside (front back : List Token) {ts : List Token}
    (h : Linked (front ++ ts ++ back)) : Linked ts := by
  rintro before t u after rfl
  exact h (front ++ before) t u (after ++ back) (by simp)

theorem Linked.tail {t : Token} {ts : List Token} (h : Linked (t :: ts)) : Linked ts :=
  Linked.inside [t] [] (by simpa using h)

def gap (left right : List Char) : List Char :=
  if left.isEmpty || (left.getLast?.map isTight).getD false ||
      (right.head?.map isTight).getD false then []
  else [' ']

theorem joinToken_eq (joined token : List Char) :
    joinToken joined token = joined ++ (gap joined token ++ token) := by
  rw [joinToken, gap]
  split <;> simp

theorem gap_append (front : List Char) {left : List Char} (some : left ≠ [])
    (right : List Char) : gap (front ++ left) right = gap left right := by
  have last : (front ++ left).getLast? = left.getLast? := by
    rw [List.getLast?_append, List.getLast?_eq_some_getLast some]
    rfl
  have filled : (front ++ left).isEmpty = left.isEmpty := by
    cases left with
    | nil => exact absurd rfl some
    | cons c left => cases front <;> rfl
  rw [gap, gap, last, filled]

/-- What is joined to a text, which shows only in its last character. -/
def joinedAfter (left : List Char) : List (List Char) → List Char
  | [] => []
  | token :: later => gap left token ++ (token ++ joinedAfter token later)

theorem joinedAfter_append (front : List Char) {left : List Char} (some : left ≠ [])
    (later : List (List Char)) : joinedAfter (front ++ left) later = joinedAfter left later := by
  cases later with
  | nil => rfl
  | cons token later => rw [joinedAfter, joinedAfter, gap_append front some]

theorem foldl_joinToken (joined : List Char) {tokens : List (List Char)}
    (filled : ∀ token ∈ tokens, token ≠ []) :
    tokens.foldl joinToken joined = joined ++ joinedAfter joined tokens := by
  induction tokens generalizing joined with
  | nil => simp [joinedAfter]
  | cons token later ih =>
    have some : token ≠ [] := filled token (by simp)
    rw [List.foldl_cons, ih _ fun t member => filled t (List.mem_cons_of_mem token member),
      joinToken_eq, ← List.append_assoc, joinedAfter_append _ some, joinedAfter]
    simp

theorem joinedAfter_dot {t : Token} {later : List Token} (dot : t.kind = .dot)
    (lexemes : ∀ u ∈ t :: later, Lexeme u.kind u.text.toList) (linked : Linked (t :: later)) :
    startsWithDigit (joinedAfter t.text.toList (later.map fun u => u.text.toList)) = false := by
  cases later with
  | nil => rfl
  | cons u later =>
    have word : u.kind ∈ Grammar.Symbol.words := linked [] t u later rfl dot
    have spelled := (lexemes t (by simp)).text_of_symbol (c := '.') (by rw [dot]; rfl)
    rw [List.map_cons, joinedAfter, spelled]
    exact (lexemes u (by simp)).not_digit_of_word word _

theorem endsBefore_joinedAfter {t u : Token} {later : List Token}
    (lexemes : ∀ v ∈ t :: u :: later, Lexeme v.kind v.text.toList)
    (linked : Linked (t :: u :: later)) (meet : gap t.text.toList u.text.toList = []) :
    t.kind.endsBefore
      (u.text.toList ++ joinedAfter u.text.toList (later.map fun v => v.text.toList)) = true := by
  have first := lexemes t (by simp)
  have second := lexemes u (by simp)
  have empty : t.text.toList.isEmpty = false := by
    rw [List.isEmpty_eq_false_iff]
    exact first.ne_nil
  have tight : (t.text.toList.getLast?.map isTight).getD false = true ∨
      (u.text.toList.head?.map isTight).getD false = true := by
    rw [gap, empty] at meet
    split at meet
    · rename_i either
      rwa [Bool.false_or, Bool.or_eq_true] at either
    · cases meet
  rcases tight with tight | tight
  · refine endsBefore_of_tight_end first (fun c last => ?_) fun dot => ?_
    · rw [Option.mem_def] at last
      simpa [last] using tight
    · exact second.not_digit_of_word (linked [] t u later rfl dot) _
  · obtain ⟨c, cs, same, -⟩ := second.starts
    rw [same] at tight ⊢
    rw [List.cons_append]
    refine endsBefore_of_tight_start t.kind (by simpa using tight) (fun point => ?_)
      first.ne_endOfInput
    subst point
    rw [same] at second
    obtain ⟨dot, rfl⟩ := second.dot_of_start
    have behind := joinedAfter_dot dot
      (fun v member => lexemes v (List.mem_cons_of_mem t member)) linked.tail
    rwa [same] at behind

theorem spells_joinedAfter {t : Token} {ts : List Token}
    (lexemes : ∀ u ∈ t :: ts, Lexeme u.kind u.text.toList) (linked : Linked (t :: ts)) :
    Spells (t.text.toList ++ joinedAfter t.text.toList (ts.map fun u => u.text.toList))
      (t :: ts) := by
  induction ts generalizing t with
  | nil => exact .token (lexemes t (by simp)) (endsBefore_nil _) .done
  | cons u later ih =>
    have first := lexemes t (by simp)
    have rest := ih (fun v member => lexemes v (List.mem_cons_of_mem t member)) linked.tail
    rw [List.map_cons, joinedAfter]
    by_cases meet : gap t.text.toList u.text.toList = []
    · rw [meet, List.nil_append]
      exact .token first (endsBefore_joinedAfter lexemes linked meet) rest
    · have blank : gap t.text.toList u.text.toList = [' '] := by
        rw [gap] at meet ⊢
        split
        · exact absurd (if_pos ‹_›) meet
        · rfl
      rw [blank]
      exact .token first (endsBefore_blank _ first.ne_endOfInput) (.blank (by decide) rest)

/-- Joined tokens are read as these tokens. -/
theorem spells_joinTokens {ts : List Token}
    (lexemes : ∀ t ∈ ts, Lexeme t.kind t.text.toList) (linked : Linked ts) :
    Spells (joinTokens (ts.map (·.text))).toList ts := by
  rw [joinTokens, String.toList_ofList, List.map_map]
  have filled : ∀ text ∈ ts.map (String.toList ∘ fun t => t.text), text ≠ [] := by
    intro text member
    obtain ⟨t, inside, rfl⟩ := List.mem_map.1 member
    exact (lexemes t inside).ne_nil
  rw [foldl_joinToken [] filled, List.nil_append]
  cases ts with
  | nil => exact .done
  | cons t later => exact spells_joinedAfter lexemes linked

structure Joinable (ts : List Token) : Prop where
  lexemes : ∀ t ∈ ts, Lexeme t.kind t.text.toList
  linked : Linked ts

theorem Joinable.inside (front back : List Token) {ts : List Token}
    (h : Joinable (front ++ ts ++ back)) : Joinable ts :=
  ⟨fun t member => h.lexemes t (by simp [member]), h.linked.inside front back⟩

theorem Joinable.left {ts us : List Token} (h : Joinable (ts ++ us)) : Joinable ts :=
  Joinable.inside [] us (by simpa using h)

theorem Joinable.right {ts us : List Token} (h : Joinable (ts ++ us)) : Joinable us :=
  Joinable.inside ts [] (by simpa using h)

def Node.Spelled (node : Node) : Prop :=
  ∀ t ∈ node.tokens, Lexeme t.kind t.text.toList

theorem Node.Spelled.leaf {t : Token} (h : (Node.leaf t).Spelled) : Lexeme t.kind t.text.toList :=
  h t (by simp)

theorem Node.Spelled.child {rule : Rule} {children : List Node} (h : (Node.branch rule children).Spelled)
    {child : Node} (member : child ∈ children) : child.Spelled := by
  obtain ⟨front, back, rfl⟩ := List.append_of_mem member
  intro t inside
  exact h t (by simp [inside])

/-- A text that ends every token and goes on with none. -/
structure Breaks (text : List Char) : Prop where
  ends : ∀ kind, kind ≠ .endOfInput → TokenKind.endsBefore kind text = true
  noDigit : startsWithDigit text = false

theorem breaks_blank (rest : List Char) : Breaks (' ' :: rest) :=
  ⟨fun _ notEnd => endsBefore_blank rest notEnd, rfl⟩

theorem breaks_tight {c : Char} {rest : List Char} (tight : isTight c = true)
    (named : c = '.' → startsWithDigit rest = false) : Breaks (c :: rest) :=
  ⟨fun kind notEnd => endsBefore_of_tight_start kind tight named notEnd, (tight_cases tight).2.1⟩

theorem Breaks.endsBefore_append {back : List Char} (breaks : Breaks back) {kind : TokenKind}
    {cs : List Char} (notEnd : kind ≠ .endOfInput) (ends : kind.endsBefore cs = true) :
    kind.endsBefore (cs ++ back) = true := by
  rcases cs with _ | ⟨d, _ | ⟨e, cs⟩⟩
  · exact breaks.ends kind notEnd
  · cases kind with
    | endOfInput => exact absurd rfl notEnd
    | integer | float =>
      simp only [TokenKind.endsBefore, TokenKind.numberEnds, List.cons_append,
        List.nil_append, breaks.noDigit] at ends ⊢
      exact ends
    | _ => exact ends
  · cases kind with
    | endOfInput => exact absurd rfl notEnd
    | _ => exact ends

theorem Spells.append {front back : List Char} {ts us : List Token} (breaks : Breaks back)
    (first : Spells front ts) (second : Spells back us) : Spells (front ++ back) (ts ++ us) := by
  induction first with
  | done => exact second
  | blank isBlank _ ih => exact .blank isBlank ih
  | token lexeme ends _ ih =>
    rw [List.append_assoc]
    exact .token lexeme (breaks.endsBefore_append lexeme.ne_endOfInput ends) ih

theorem Spells.append_blank {front back : List Char} {ts us : List Token}
    (first : Spells front ts) (second : Spells back us) :
    Spells (front ++ ' ' :: back) (ts ++ us) :=
  first.append (breaks_blank back) (.blank rfl second)

def commaToken : Token :=
  ⟨.comma, ",", 0⟩

def behindCommas (parts : List (List Node)) : List Node :=
  parts.flatMap fun part => .leaf commaToken :: part

@[simp] theorem behindCommas_nil : behindCommas [] = [] := rfl

@[simp] theorem behindCommas_cons (part : List Node) (later : List (List Node)) :
    behindCommas (part :: later) = .leaf commaToken :: (part ++ behindCommas later) := rfl

theorem parses_behindCommas {n : Nat} {f : Grammar.Form} {parts : List (List Node)}
    (all : ∀ part ∈ parts, Grammar.Parses n f part) :
    Grammar.Parses n (.many (.both (.one [.comma]) f)) (behindCommas parts) := by
  induction parts with
  | nil => exact .done
  | cons part later ih =>
    have comma : Grammar.Parses n (.one [.comma]) [.leaf commaToken] := .one (by simp [commaToken])
    exact .again (.both comma (all part (by simp)))
      (ih fun other member => all other (List.mem_cons_of_mem part member))

theorem Spells.append_comma {front back : List Char} {ts us : List Token}
    (first : Spells front ts) (second : Spells back us) :
    Spells (front ++ ',' :: back) (ts ++ commaToken :: us) :=
  first.append (breaks_tight rfl fun same => by cases same)
    (.token (t := commaToken) ⟨rfl, ',', [], rfl, rfl⟩ rfl second)

theorem Spells.ne_blank {cs : List Char} {ts : List Token} (h : Spells cs ts) (some : ts ≠ []) :
    cs.all isBlank = false := by
  induction h with
  | done => exact absurd rfl some
  | blank _ _ ih => simp [ih some]
  | token lexeme =>
    obtain ⟨c, later, same, visible⟩ := lexeme.starts
    simp [same, visible]

theorem Spells.eq_nil {ts : List Token} (h : Spells [] ts) : ts = [] := by
  cases ts with
  | nil => rfl
  | cons t ts =>
    have := h.ne_blank (List.cons_ne_nil t ts)
    cases this

theorem Spells.comma_last {cs : List Char} {ts : List Token} (h : Spells cs ts)
    (last : cs.getLast? = some ',') : ∃ t, ts.getLast? = some t ∧ t.kind = .comma := by
  induction h with
  | done => cases last
  | @blank c later ts isBlank _ ih =>
    cases later with
    | nil =>
      cases last
      exact absurd isBlank (by decide)
    | cons d later => exact ih (List.getLast?_cons_cons ▸ last)
  | @token t later ts lexeme _ inner ih =>
    cases later with
    | nil =>
      obtain rfl := inner.eq_nil
      rw [List.append_nil] at last
      exact ⟨t, rfl, lexeme.comma_of_last last⟩
    | cons d later =>
      obtain ⟨u, found, comma⟩ := ih (by simpa [List.getLast?_append] using last)
      exact ⟨u, by rw [List.getLast?_cons, found, Option.getD_some], comma⟩

namespace Grammar

inductive Named : List Token → Prop where
  | nil : Named []
  | other {t : Token} {ts : List Token} (notDot : t.kind ≠ .dot) (later : Named ts) :
      Named (t :: ts)
  | dot {t u : Token} {ts : List Token} (word : u.kind ∈ Symbol.words) (later : Named ts) :
      Named (t :: u :: ts)

theorem Named.append {ts us : List Token} (front : Named ts) (back : Named us) :
    Named (ts ++ us) := by
  induction front with
  | nil => exact back
  | other notDot _ ih => exact .other notDot ih
  | dot word _ ih => exact .dot word ih

theorem Named.linked {ts : List Token} (h : Named ts) : Linked ts := by
  have noDot : ∀ kind ∈ Symbol.words, kind ≠ .dot := by decide
  induction h with
  | nil =>
    intro front t u back same
    simp at same
  | other notDot _ ih =>
    intro front t u back same dot
    cases front with
    | nil =>
      cases same
      exact absurd dot notDot
    | cons v front =>
      cases same
      exact ih front t u back rfl dot
  | dot word _ ih =>
    intro front t u back same dot
    rcases front with _ | ⟨v, _ | ⟨w, front⟩⟩
    · cases same
      exact word
    · cases same
      exact absurd dot (noDot _ word)
    · cases same
      exact ih front t u back rfl dot

def Form.named : Form → Bool
  | .one kinds => !kinds.contains .dot
  | .symbol _ => true
  | .both (.one [.dot]) (.symbol .attributeName) => true
  | .both f g | .either f g => f.named && g.named
  | .optional f | .many f | .deeper f | .branch _ f | .collapse _ f => f.named

theorem Symbol.rule_named (s : Symbol) : s.rule.named = true := by
  cases s with
  | chain tier => cases tier <;> rfl
  | _ => rfl

theorem Parses.named {n : Nat} {f : Form} {nodes : List Node} (h : Parses n f nodes)
    (named : f.named = true) : Named (Node.tokensOf nodes) := by
  induction h with
  | @one n kinds t member =>
    simp only [Node.tokensOf_cons, Node.tokens_leaf, Node.tokensOf_nil, List.append_nil]
    refine .other (fun dot => ?_) .nil
    rw [dot] at member
    rw [Form.named, List.contains_iff_mem.2 member] at named
    cases named
  | @symbol n s nodes _ ih => exact ih s.rule_named
  | @both n f g front back first second ihFirst ihSecond =>
    rw [Node.tokensOf_append]
    rw [Form.named.eq_def] at named
    split at named
    case h_3 same =>
      cases same
      obtain ⟨t, -, rfl⟩ := parses_one.1 first
      obtain ⟨u, word, rfl⟩ := parses_attributeName.1 second
      exact .dot word .nil
    case h_4 same =>
      cases same
      rw [Bool.and_eq_true] at named
      exact (ihFirst named.1).append (ihSecond named.2)
    all_goals simp_all
  | first _ ih =>
    rw [Form.named, Bool.and_eq_true] at named
    exact ih named.1
  | second _ ih =>
    rw [Form.named, Bool.and_eq_true] at named
    exact ih named.2
  | absent | done => exact Node.tokensOf_nil ▸ .nil
  | again _ _ ihHead ihTail =>
    rw [Node.tokensOf_append]
    exact (ihHead named).append (ihTail named)
  | present _ ih | deeper _ ih => exact ih named
  | branch _ ih =>
    simp only [Node.tokensOf_cons, Node.tokens_branch, Node.tokensOf_nil, List.append_nil]
    exact ih named
  | collapse _ ih =>
    simp only [Node.tokensOf_cons, Node.tokens_collapse, Node.tokensOf_nil, List.append_nil]
    exact ih named

end Grammar

end RecordPipeline
