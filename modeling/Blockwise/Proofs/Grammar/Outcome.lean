import Blockwise.Tree.Parser

/-!
# Outcomes of the readers of tokens

For each reader, what it takes to yield a result: which tokens it expects, and what the readers
that it calls yield.  The bounds that travel with the results are left behind here.
-/

namespace Blockwise
namespace Parser

/-- A reader's outcome is the result, with the rest of the tokens still to be read. -/
def Yields {α : Type} {n : Nat} (outcome : Except Cause (Parsed α n)) (result : α)
    (rest : List PlacedToken) : Prop :=
  ∃ within, outcome = .ok ⟨result, rest, within⟩

section Combined

variable {α β : Type} {m n : Nat} {result : α} {rest : List PlacedToken}

theorem yields_ok {p : Parsed α n} :
    Yields (.ok p) result rest ↔ p.result = result ∧ p.rest = rest := by
  cases p with
  | mk a r w =>
      constructor
      · intro hgiven
        rcases hgiven with ⟨within, h⟩
        cases h
        exact ⟨rfl, rfl⟩
      · intro hgiven
        rcases hgiven with ⟨rfl, rfl⟩
        exact ⟨w, rfl⟩

theorem yields_error {cause : Cause} :
    Yields (.error cause : Except Cause (Parsed α n)) result rest ↔ False := by
  constructor
  · intro hgiven
    rcases hgiven with ⟨_, h⟩
    cases h
  · exact False.elim

theorem yields_bind {outcome : Except Cause (Parsed β m)}
    {next : Parsed β m → Except Cause (Parsed α n)} :
    Yields (outcome >>= next) result rest ↔
      ∃ b mid within, outcome = .ok ⟨b, mid, within⟩ ∧
        Yields (next ⟨b, mid, within⟩) result rest := by
  cases outcome with
  | error cause =>
      constructor
      · intro h
        exact (yields_error.mp h).elim
      · intro hgiven
        rcases hgiven with ⟨_, _, _, h, _⟩
        cases h
  | ok p =>
      cases p with
      | mk b mid within =>
          constructor
          · intro h
            exact ⟨b, mid, within, rfl, h⟩
          · intro hgiven
            rcases hgiven with ⟨_, _, _, h, hnext⟩
            cases h
            exact hnext

theorem yields_weaken {outcome : Except Cause (Parsed α m)} {h : m ≤ n} :
    Yields (outcome >>= fun p => pure (p.weaken h)) result rest ↔ Yields outcome result rest := by
  rw [yields_bind]
  constructor
  · intro hgiven
    rcases hgiven with ⟨a, mid, within, houtcome, hresult⟩
    rcases yields_ok.mp hresult with ⟨rfl, rfl⟩
    exact ⟨within, houtcome⟩
  · intro hgiven
    rcases hgiven with ⟨within, houtcome⟩
    exact ⟨result, rest, within, houtcome, yields_ok.mpr ⟨rfl, rfl⟩⟩

theorem yields_map {outcome : Except Cause (Parsed β m)} {f : β → α} {h : m ≤ n} :
    Yields (outcome >>= fun p => pure ((p.map f).weaken h)) result rest ↔
      ∃ b, f b = result ∧ Yields outcome b rest := by
  rw [yields_bind]
  constructor
  · intro hgiven
    rcases hgiven with ⟨b, mid, within, houtcome, hresult⟩
    rcases yields_ok.mp hresult with ⟨rfl, rfl⟩
    exact ⟨b, rfl, within, houtcome⟩
  · intro hgiven
    rcases hgiven with ⟨b, rfl, within, houtcome⟩
    exact ⟨b, rest, within, houtcome, yields_ok.mpr ⟨rfl, rfl⟩⟩

theorem Yields.length_lt {outcome : Except Cause (Parsed α n)} (h : Yields outcome result rest) :
    rest.length < n := by
  rcases h with ⟨within, _⟩
  exact within

end Combined

/-!
# Required tokens

A reader that requires a token yields something if the token is at the front.
-/

variable {ts rest : List PlacedToken}

theorem yields_expectSymbol {symbol : Symbol} {u : Unit} :
    Yields (expectSymbol symbol ts) u rest ↔ ∃ column, ts = ⟨.symbol symbol, column⟩ :: rest := by
  cases ts with
  | nil => simp [expectSymbol, yields_error]
  | cons t more =>
      rcases t with ⟨token, column⟩
      by_cases htoken : token = .symbol symbol
      · simp [expectSymbol, htoken, yields_ok]
      · simp [expectSymbol, htoken, yields_error]

theorem yields_expectKeyword {keyword : Keyword} {u : Unit} :
    Yields (expectKeyword keyword ts) u rest ↔
      ∃ column, ts = ⟨.keyword keyword, column⟩ :: rest := by
  cases ts with
  | nil => simp [expectKeyword, yields_error]
  | cons t more =>
      rcases t with ⟨token, column⟩
      by_cases htoken : token = .keyword keyword
      · simp [expectKeyword, htoken, yields_ok]
      · simp [expectKeyword, htoken, yields_error]

theorem yields_expectName {name : String} :
    Yields (expectName ts) name rest ↔ ∃ column, ts = ⟨.name name, column⟩ :: rest := by
  unfold expectName
  split
  · next s column more =>
      rw [yields_ok]
      simp [eq_comm]
  · next hname =>
      rw [yields_error]
      simp only [false_iff, not_exists]
      intro column hts
      exact hname name column rest hts

theorem yields_expectType {target : ValueType} :
    Yields (expectType ts) target rest ↔ ∃ column, ts = ⟨.type target, column⟩ :: rest := by
  unfold expectType
  split
  · next t column more =>
      rw [yields_ok]
      simp [eq_comm]
  · next htype =>
      rw [yields_error]
      simp only [false_iff, not_exists]
      intro column hts
      exact htype target column rest hts

theorem cons_of_front {token : Token} (h : (front ts).token = token)
    (hend : token ≠ .endOfInput) : ∃ column more, ts = ⟨token, column⟩ :: more := by
  cases ts with
  | nil => exact absurd h.symm hend
  | cons t more =>
      cases t with
      | mk found column =>
          cases h
          exact ⟨column, more, rfl⟩

theorem afterComma?_eq_none (h : (front ts).token ≠ .symbol .comma) : afterComma? ts = none := by
  unfold afterComma?
  split
  · exact absurd rfl h
  · rfl

/-!
# Expressions

A primary expression is read in one of few ways, and so are the arguments after the first
parenthesis.  After an item, a list goes on past a comma or ends.
-/

variable {tree left : Tree} {level : Level}

theorem yields_castTail_as {column : Nat} :
    Yields (castTail left (⟨.keyword .as, column⟩ :: ts)) tree rest ↔
      ∃ target column' more, ts = ⟨.type target, column'⟩ :: more ∧
        Yields (castTail (.cast left target) more) tree rest := by
  rw [castTail, yields_bind]
  constructor
  · intro hgiven
    rcases hgiven with ⟨target, more, within, htype, htail⟩
    rcases yields_expectType.mp ⟨within, htype⟩ with ⟨column', rfl⟩
    exact ⟨target, column', more, rfl, yields_weaken.mp htail⟩
  · intro hgiven
    rcases hgiven with ⟨target, column', more, rfl, htail⟩
    rcases yields_expectType.mpr ⟨column', rfl⟩ with ⟨within, htype⟩
    exact ⟨target, more, within, htype, yields_weaken.mpr htail⟩

theorem yields_castTail_end (h : (front ts).token ≠ .keyword .as) :
    Yields (castTail left ts) tree rest ↔ left = tree ∧ ts = rest := by
  unfold castTail
  split
  · exact absurd rfl h
  · exact yields_ok

theorem yields_expression :
    Yields (expression level ts) tree rest ↔
      ∃ left mid, Yields (operand level ts) left mid ∧
        Yields (expressionTail level left mid) tree rest := by
  rw [expression, yields_bind]
  constructor
  · intro hgiven
    rcases hgiven with ⟨left, mid, within, hoperand, htail⟩
    exact ⟨left, mid, ⟨within, hoperand⟩, yields_weaken.mp htail⟩
  · intro hgiven
    rcases hgiven with ⟨left, mid, ⟨within, hoperand⟩, htail⟩
    exact ⟨left, mid, within, hoperand, yields_weaken.mpr htail⟩

theorem yields_expressionTail_operator {t : PlacedToken} {op : BinaryOp}
    (h : level.operator? t.token = some op) :
    Yields (expressionTail level left (t :: ts)) tree rest ↔
      ∃ right mid, Yields (operand level ts) right mid ∧
        Yields (expressionTail level (.binary op left right) mid) tree rest := by
  rw [expressionTail, h]
  simp only
  rw [yields_bind]
  constructor
  · intro hgiven
    rcases hgiven with ⟨right, mid, within, hoperand, htail⟩
    exact ⟨right, mid, ⟨within, hoperand⟩, yields_weaken.mp htail⟩
  · intro hgiven
    rcases hgiven with ⟨right, mid, ⟨within, hoperand⟩, htail⟩
    exact ⟨right, mid, within, hoperand, yields_weaken.mpr htail⟩

theorem yields_expressionTail_end (h : level.operator? (front ts).token = none) :
    Yields (expressionTail level left ts) tree rest ↔ left = tree ∧ ts = rest := by
  cases ts with
  | nil => rw [expressionTail, yields_ok]
  | cons t more =>
      have hnone : level.operator? t.token = none := h
      rw [expressionTail, hnone]
      exact yields_ok

theorem yields_negation_not {column : Nat} :
    Yields (negation (⟨.keyword .not, column⟩ :: ts)) tree rest ↔
      ∃ operand, Tree.unary .not operand = tree ∧ Yields (negation ts) operand rest := by
  rw [negation]
  exact yields_map

theorem negation_comparison (h : (front ts).token ≠ .keyword .not) :
    negation ts = expression .comparison ts := by
  unfold negation
  split
  · exact absurd rfl h
  · rfl

theorem yields_cast :
    Yields (cast ts) tree rest ↔
      ∃ inner mid, Yields (primary ts) inner mid ∧ Yields (castTail inner mid) tree rest := by
  rw [cast, yields_bind]
  constructor
  · intro hgiven
    rcases hgiven with ⟨inner, mid, within, hprimary, htail⟩
    exact ⟨inner, mid, ⟨within, hprimary⟩, yields_weaken.mp htail⟩
  · intro hgiven
    rcases hgiven with ⟨inner, mid, ⟨within, hprimary⟩, htail⟩
    exact ⟨inner, mid, within, hprimary, yields_weaken.mpr htail⟩

inductive PrimaryForm : List PlacedToken → Tree → List PlacedToken → Prop where
  | number {x : Float} {column : Nat} {rest : List PlacedToken} :
      PrimaryForm (⟨.number x, column⟩ :: rest) (.literal (.number x)) rest
  | boolean {b : Bool} {column : Nat} {rest : List PlacedToken} :
      PrimaryForm (⟨.boolean b, column⟩ :: rest) (.literal (.boolean b)) rest
  | string {s : String} {column : Nat} {rest : List PlacedToken} :
      PrimaryForm (⟨.string s, column⟩ :: rest) (.literal (.string s)) rest
  | template {segments : List Segment} {column : Nat} {rest : List PlacedToken} :
      PrimaryForm (⟨.template segments, column⟩ :: rest) (.template segments) rest
  | negate {column : Nat} {ts rest : List PlacedToken} {tree : Tree} :
      Yields (primary ts) tree rest →
      PrimaryForm (⟨.symbol .minus, column⟩ :: ts) (.unary .negate tree) rest
  | affirm {column : Nat} {ts rest : List PlacedToken} {tree : Tree} :
      Yields (primary ts) tree rest →
      PrimaryForm (⟨.symbol .plus, column⟩ :: ts) (.unary .affirm tree) rest
  | parentheses {column column' : Nat} {ts rest : List PlacedToken} {tree : Tree} :
      Yields (expression .disjunction ts) tree (⟨.symbol .closeParen, column'⟩ :: rest) →
      PrimaryForm (⟨.symbol .openParen, column⟩ :: ts) tree rest
  | builtin {f : Function} {column column' : Nat} {ts rest : List PlacedToken}
      {args : List Tree} :
      Yields (arguments ts) args rest →
      PrimaryForm (⟨.function f, column⟩ :: ⟨.symbol .openParen, column'⟩ :: ts)
        (.call f.name args) rest
  | call {s : String} {column column' : Nat} {ts rest : List PlacedToken} {args : List Tree} :
      Yields (arguments ts) args rest →
      PrimaryForm (⟨.name s, column⟩ :: ⟨.symbol .openParen, column'⟩ :: ts) (.call s args) rest
  | get {s : String} {column : Nat} {rest : List PlacedToken} :
      (front rest).token ≠ .symbol .openParen →
      PrimaryForm (⟨.name s, column⟩ :: rest) (.get s) rest

theorem primaryForm_of_yields (h : Yields (primary ts) tree rest) : PrimaryForm ts tree rest := by
  unfold primary at h
  split at h
  · rcases yields_ok.mp h with ⟨rfl, rfl⟩
    exact PrimaryForm.number
  · rcases yields_ok.mp h with ⟨rfl, rfl⟩
    exact PrimaryForm.boolean
  · rcases yields_ok.mp h with ⟨rfl, rfl⟩
    exact PrimaryForm.string
  · rcases yields_ok.mp h with ⟨rfl, rfl⟩
    exact PrimaryForm.template
  · rcases yields_map.mp h with ⟨operand, rfl, hoperand⟩
    exact PrimaryForm.negate hoperand
  · rcases yields_map.mp h with ⟨operand, rfl, hoperand⟩
    exact PrimaryForm.affirm hoperand
  · rcases yields_bind.mp h with ⟨inner, mid, within, hinner, hclose⟩
    rcases yields_bind.mp hclose with ⟨u, after, within', hsymbol, hresult⟩
    rcases yields_expectSymbol.mp ⟨within', hsymbol⟩ with ⟨column', rfl⟩
    rcases yields_ok.mp hresult with ⟨rfl, rfl⟩
    exact PrimaryForm.parentheses ⟨within, hinner⟩
  · rcases yields_bind.mp h with ⟨u, mid, within, hsymbol, hargs⟩
    rcases yields_expectSymbol.mp ⟨within, hsymbol⟩ with ⟨column', rfl⟩
    rcases yields_map.mp hargs with ⟨args, rfl, hyields⟩
    exact PrimaryForm.builtin hyields
  · rcases yields_map.mp h with ⟨args, rfl, hargs⟩
    exact PrimaryForm.call hargs
  · next hopen =>
      rcases yields_ok.mp h with ⟨rfl, rfl⟩
      refine PrimaryForm.get ?_
      intro hfront
      rcases cons_of_front hfront (by simp) with ⟨column, more, rfl⟩
      exact hopen column more rfl
  · exact (yields_error.mp h).elim

theorem yields_of_primaryForm (h : PrimaryForm ts tree rest) : Yields (primary ts) tree rest := by
  cases h with
  | number => rw [primary]; exact yields_ok.mpr ⟨rfl, rfl⟩
  | boolean => rw [primary]; exact yields_ok.mpr ⟨rfl, rfl⟩
  | string => rw [primary]; exact yields_ok.mpr ⟨rfl, rfl⟩
  | template => rw [primary]; exact yields_ok.mpr ⟨rfl, rfl⟩
  | negate hoperand => rw [primary]; exact yields_map.mpr ⟨_, rfl, hoperand⟩
  | affirm hoperand => rw [primary]; exact yields_map.mpr ⟨_, rfl, hoperand⟩
  | parentheses hinner =>
      rcases hinner with ⟨within, hinner⟩
      rw [primary]
      refine yields_bind.mpr ⟨_, _, within, hinner, ?_⟩
      rcases yields_expectSymbol.mpr ⟨_, rfl⟩ with ⟨within', hsymbol⟩
      exact yields_bind.mpr ⟨(), _, within', hsymbol, yields_ok.mpr ⟨rfl, rfl⟩⟩
  | builtin hargs =>
      rw [primary]
      rcases yields_expectSymbol.mpr ⟨_, rfl⟩ with ⟨within, hsymbol⟩
      exact yields_bind.mpr ⟨(), _, within, hsymbol, yields_map.mpr ⟨_, rfl, hargs⟩⟩
  | call hargs => rw [primary]; exact yields_map.mpr ⟨_, rfl, hargs⟩
  | get hfront =>
      rw [primary]
      · exact yields_ok.mpr ⟨rfl, rfl⟩
      · intro column more hmore
        rw [hmore] at hfront
        exact hfront rfl

inductive ArgumentsForm : List PlacedToken → List Tree → List PlacedToken → Prop where
  | none {column : Nat} {rest : List PlacedToken} :
      ArgumentsForm (⟨.symbol .closeParen, column⟩ :: rest) [] rest
  | some {ts rest : List PlacedToken} {args : List Tree} :
      (front ts).token ≠ .symbol .closeParen →
      Yields (argumentList ts) args rest → ArgumentsForm ts args rest

theorem yields_arguments {args : List Tree} :
    Yields (arguments ts) args rest ↔ ArgumentsForm ts args rest := by
  constructor
  · intro h
    unfold arguments at h
    split at h
    · rcases yields_ok.mp h with ⟨rfl, rfl⟩
      exact ArgumentsForm.none
    · next hclose =>
        refine ArgumentsForm.some ?_ h
        intro hfront
        rcases cons_of_front hfront (by simp) with ⟨column, more, rfl⟩
        exact hclose column more rfl
  · intro h
    cases h with
    | none => rw [arguments]; exact yields_ok.mpr ⟨rfl, rfl⟩
    | some hfront hlist =>
        rw [arguments]
        · exact hlist
        · intro column more hmore
          rw [hmore] at hfront
          exact hfront rfl

inductive ListForm {α : Type} (more : List PlacedToken → List α → List PlacedToken → Prop)
    (stop : List PlacedToken → List PlacedToken → Prop) (item : α) :
    List PlacedToken → List α → List PlacedToken → Prop where
  | comma {column : Nat} {ts rest : List PlacedToken} {items : List α} :
      more ts items rest →
      ListForm more stop item (⟨.symbol .comma, column⟩ :: ts) (item :: items) rest
  | last {ts rest : List PlacedToken} :
      (front ts).token ≠ .symbol .comma → stop ts rest → ListForm more stop item ts [item] rest

def Closes (ts rest : List PlacedToken) : Prop :=
  ∃ column, ts = ⟨.symbol .closeParen, column⟩ :: rest

theorem yields_argumentList {args : List Tree} :
    Yields (argumentList ts) args rest ↔
      ∃ first mid, Yields (expression .disjunction ts) first mid ∧
        ListForm (fun ts args rest => Yields (argumentList ts) args rest) Closes first
          mid args rest := by
  rw [argumentList, yields_bind]
  constructor
  · intro hgiven
    rcases hgiven with ⟨first, mid, within, hfirst, hmore⟩
    refine ⟨first, mid, ⟨within, hfirst⟩, ?_⟩
    by_cases hcomma : (front mid).token = .symbol .comma
    · rcases cons_of_front hcomma (by simp) with ⟨column, more, rfl⟩
      rcases yields_map.mp hmore with ⟨others, rfl, hothers⟩
      exact ListForm.comma hothers
    · simp only [afterComma?_eq_none hcomma] at hmore
      rcases yields_bind.mp hmore with ⟨u, after, within', hsymbol, hresult⟩
      rcases yields_ok.mp hresult with ⟨rfl, rfl⟩
      exact ListForm.last hcomma (yields_expectSymbol.mp ⟨within', hsymbol⟩)
  · intro hgiven
    rcases hgiven with ⟨first, mid, ⟨within, hfirst⟩, hmore⟩
    refine ⟨first, mid, within, hfirst, ?_⟩
    cases hmore with
    | comma hothers => exact yields_map.mpr ⟨_, rfl, hothers⟩
    | last hcomma hclose =>
        rcases yields_expectSymbol.mpr hclose with ⟨within', hsymbol⟩
        simp only [afterComma?_eq_none hcomma]
        exact yields_bind.mpr ⟨(), rest, within', hsymbol, yields_ok.mpr ⟨rfl, rfl⟩⟩

/-!
# Blocks

A block is read as its role says, up to the end of the input.
-/

inductive ReadForm : List PlacedToken → Tree → List PlacedToken → Prop where
  | read {s : String} {target : ValueType} {column column' column'' : Nat}
      {rest : List PlacedToken} :
      ReadForm
        (⟨.name s, column⟩ :: ⟨.keyword .as, column'⟩ :: ⟨.type target, column''⟩ :: rest)
        (.set s (.read s target) true) rest

theorem yields_reads {trees : List Tree} :
    Yields (reads ts) trees rest ↔
      ∃ tree mid, ReadForm ts tree mid ∧
        ListForm (fun ts trees rest => Yields (reads ts) trees rest) Eq tree mid trees rest := by
  rw [reads, yields_bind]
  constructor
  · intro hgiven
    rcases hgiven with ⟨name, afterName, within, hname, h⟩
    rcases yields_expectName.mp ⟨within, hname⟩ with ⟨column, rfl⟩
    rcases yields_bind.mp h with ⟨u, afterAs, within', has, h'⟩
    rcases yields_expectKeyword.mp ⟨within', has⟩ with ⟨column', rfl⟩
    rcases yields_bind.mp h' with ⟨target, mid, within'', htype, hmore⟩
    rcases yields_expectType.mp ⟨within'', htype⟩ with ⟨column'', rfl⟩
    refine ⟨_, mid, ReadForm.read, ?_⟩
    by_cases hcomma : (front mid).token = .symbol .comma
    · rcases cons_of_front hcomma (by simp) with ⟨column, more, rfl⟩
      rcases yields_map.mp hmore with ⟨others, rfl, hothers⟩
      exact ListForm.comma hothers
    · simp only [afterComma?_eq_none hcomma] at hmore
      rcases yields_ok.mp hmore with ⟨rfl, rfl⟩
      exact ListForm.last hcomma rfl
  · intro hgiven
    rcases hgiven with ⟨_, mid, ⟨⟩, hmore⟩
    rename_i name target column column' column''
    rcases yields_expectName.mpr ⟨column, rfl⟩ with ⟨within, hname⟩
    refine ⟨name, _, within, hname, ?_⟩
    rcases yields_expectKeyword.mpr ⟨column', rfl⟩ with ⟨within', has⟩
    refine yields_bind.mpr ⟨(), _, within', has, ?_⟩
    rcases yields_expectType.mpr ⟨column'', rfl⟩ with ⟨within'', htype⟩
    refine yields_bind.mpr ⟨target, mid, within'', htype, ?_⟩
    cases hmore with
    | comma hothers => exact yields_map.mpr ⟨_, rfl, hothers⟩
    | last hcomma hstop =>
        simp only [afterComma?_eq_none hcomma]
        exact yields_ok.mpr ⟨rfl, hstop⟩

inductive AssignForm (declares : Bool) : List PlacedToken → Tree → List PlacedToken → Prop where
  | assign {s : String} {column column' : Nat} {ts rest : List PlacedToken} {value : Tree} :
      Yields (expression .disjunction ts) value rest →
      AssignForm declares (⟨.name s, column⟩ :: ⟨.symbol .assign, column'⟩ :: ts)
        (.set s value declares) rest

theorem yields_assignments {declares : Bool} {trees : List Tree} :
    Yields (assignments declares ts) trees rest ↔
      ∃ tree mid, AssignForm declares ts tree mid ∧
        ListForm (fun ts trees rest => Yields (assignments declares ts) trees rest) Eq
          tree mid trees rest := by
  rw [assignments, yields_bind]
  constructor
  · intro hgiven
    rcases hgiven with ⟨name, afterName, within, hname, h⟩
    rcases yields_expectName.mp ⟨within, hname⟩ with ⟨column, rfl⟩
    rcases yields_bind.mp h with ⟨u, source, within', hassign, h'⟩
    rcases yields_expectSymbol.mp ⟨within', hassign⟩ with ⟨column', rfl⟩
    rcases yields_bind.mp h' with ⟨value, mid, within'', hvalue, hmore⟩
    refine ⟨_, mid, AssignForm.assign ⟨within'', hvalue⟩, ?_⟩
    by_cases hcomma : (front mid).token = .symbol .comma
    · rcases cons_of_front hcomma (by simp) with ⟨column, more, rfl⟩
      rcases yields_map.mp hmore with ⟨others, rfl, hothers⟩
      exact ListForm.comma hothers
    · simp only [afterComma?_eq_none hcomma] at hmore
      rcases yields_ok.mp hmore with ⟨rfl, rfl⟩
      exact ListForm.last hcomma rfl
  · intro hgiven
    rcases hgiven with ⟨_, mid, ⟨within'', hvalue⟩, hmore⟩
    rename_i name column column' source value
    rcases yields_expectName.mpr ⟨column, rfl⟩ with ⟨within, hname⟩
    refine ⟨name, _, within, hname, ?_⟩
    rcases yields_expectSymbol.mpr ⟨column', rfl⟩ with ⟨within', hassign⟩
    refine yields_bind.mpr ⟨(), source, within', hassign, ?_⟩
    refine yields_bind.mpr ⟨value, mid, within'', hvalue, ?_⟩
    cases hmore with
    | comma hothers => exact yields_map.mpr ⟨_, rfl, hothers⟩
    | last hcomma hstop =>
        simp only [afterComma?_eq_none hcomma]
        exact yields_ok.mpr ⟨rfl, hstop⟩

def AtEnd (ts : List PlacedToken) : Prop :=
  ∃ column more, ts = ⟨.endOfInput, column⟩ :: more

theorem finish_eq_ok_iff {n : Nat} {p : Parsed Tree n} :
    finish p = .ok tree ↔ p.result = tree ∧ AtEnd p.rest := by
  unfold finish
  split
  · next column more hrest =>
      simp [AtEnd, hrest]
  · next hrest =>
      constructor
      · intro h
        cases h
      · intro hgiven
        rcases hgiven with ⟨_, column, more, hend⟩
        exact absurd hend (hrest column more)

theorem finish_bind_eq_ok_iff {α : Type} {n : Nat} {outcome : Except Cause (Parsed α n)}
    {f : α → Tree} :
    (outcome >>= fun p => finish (p.map f)) = .ok tree ↔
      ∃ a rest, Yields outcome a rest ∧ AtEnd rest ∧ f a = tree := by
  cases outcome with
  | error cause =>
      constructor
      · intro h
        cases h
      · intro hgiven
        rcases hgiven with ⟨a, rest, h, _⟩
        exact (yields_error.mp h).elim
  | ok p =>
      change finish (p.map f) = .ok tree ↔ _
      rw [finish_eq_ok_iff]
      constructor
      · intro hgiven
        rcases hgiven with ⟨hresult, hend⟩
        exact ⟨p.result, p.rest, yields_ok.mpr ⟨rfl, rfl⟩, hend, hresult⟩
      · intro hgiven
        rcases hgiven with ⟨a, rest, h, hend, hresult⟩
        rcases yields_ok.mp h with ⟨rfl, rfl⟩
        exact ⟨hresult, hend⟩

inductive BlockForm : Role → List PlacedToken → Tree → Prop where
  | input {column : Nat} {ts rest : List PlacedToken} {trees : List Tree} :
      Yields (reads ts) trees rest → AtEnd rest →
      BlockForm .input (⟨.keyword .read, column⟩ :: ts) (.sequence trees)
  | output {ts rest : List PlacedToken} {tree : Tree} :
      Yields (expression .disjunction ts) tree rest → AtEnd rest →
      BlockForm .output ts (.write tree)
  | decision {ts rest : List PlacedToken} {tree : Tree} :
      Yields (expression .disjunction ts) tree rest → AtEnd rest → BlockForm .decision ts tree
  | declaration {ts rest : List PlacedToken} {trees : List Tree} :
      Yields (assignments true ts) trees rest → AtEnd rest →
      BlockForm .declaration ts (.sequence trees)
  | assignment {ts rest : List PlacedToken} {trees : List Tree} :
      Yields (assignments false ts) trees rest → AtEnd rest →
      BlockForm .assignment ts (.sequence trees)

theorem block_decision (ts : List PlacedToken) :
    block .decision ts = (expr ts >>= fun p => finish (p.map id)) := rfl

theorem block_eq_ok_iff {role : Role} : block role ts = .ok tree ↔ BlockForm role ts tree := by
  constructor
  · intro h
    cases role with
    | start => cases h
    | finish => cases h
    | input =>
        cases hread : expectKeyword .read ts with
        | error cause =>
            simp only [block, hread] at h
            cases h
        | ok p =>
            rcases p with ⟨u, source, within⟩
            rcases yields_expectKeyword.mp ⟨within, hread⟩ with ⟨column, rfl⟩
            rcases finish_bind_eq_ok_iff.mp h with ⟨trees, rest, htrees, hend, rfl⟩
            exact BlockForm.input htrees hend
    | output =>
        rcases finish_bind_eq_ok_iff.mp h with ⟨inner, rest, hinner, hend, rfl⟩
        exact BlockForm.output hinner hend
    | decision =>
        rw [block_decision] at h
        rcases finish_bind_eq_ok_iff.mp h with ⟨inner, rest, hinner, hend, rfl⟩
        exact BlockForm.decision hinner hend
    | declaration =>
        rcases finish_bind_eq_ok_iff.mp h with ⟨trees, rest, htrees, hend, rfl⟩
        exact BlockForm.declaration htrees hend
    | assignment =>
        rcases finish_bind_eq_ok_iff.mp h with ⟨trees, rest, htrees, hend, rfl⟩
        exact BlockForm.assignment htrees hend
  · intro h
    cases h with
    | input htrees hend =>
        exact finish_bind_eq_ok_iff.mpr ⟨_, _, htrees, hend, rfl⟩
    | output hinner hend => exact finish_bind_eq_ok_iff.mpr ⟨_, _, hinner, hend, rfl⟩
    | decision hinner hend =>
        rw [block_decision]
        exact finish_bind_eq_ok_iff.mpr ⟨_, _, hinner, hend, rfl⟩
    | declaration htrees hend => exact finish_bind_eq_ok_iff.mpr ⟨_, _, htrees, hend, rfl⟩
    | assignment htrees hend => exact finish_bind_eq_ok_iff.mpr ⟨_, _, htrees, hend, rfl⟩

end Parser
end Blockwise
