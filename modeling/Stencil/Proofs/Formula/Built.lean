import Stencil.Proofs.Formula.Lexed
import Stencil.Proofs.Template.Replay

namespace Stencil

open Stencil.Parser Template

-- What is known of a template that has only met these names, each of them once.
def Draft.ofNames (names : List String) : Draft :=
  ⟨⟨⟨names.zipIdx.reverse, [], names.length, []⟩, []⟩, [], names.zipIdx.reverse⟩

namespace Formula

variable {seen : List String} {x : String}

theorem nodup_note (h : seen.Nodup) (x : String) : (note seen x).Nodup := by
  unfold note
  split
  · exact h
  · rename_i hx
    refine List.nodup_append.mpr ⟨h, by simp, ?_⟩
    rintro a ha b hb rfl
    exact hx (List.mem_singleton.mp hb ▸ ha)

theorem prefix_note (seen : List String) (x : String) : seen <+: note seen x := by
  unfold note
  split
  · exact List.prefix_rfl
  · exact List.prefix_append _ _

theorem mem_note (seen : List String) (x : String) : x ∈ note seen x := by
  unfold note
  split <;> simp_all

theorem nodup_noteAll (h : seen.Nodup) (xs : List String) : (xs.foldl note seen).Nodup := by
  induction xs generalizing seen with
  | nil => exact h
  | cons x xs ih => exact ih (nodup_note h x)

theorem prefix_noteAll (seen xs : List String) : seen <+: xs.foldl note seen := by
  induction xs generalizing seen with
  | nil => exact List.prefix_rfl
  | cons x xs ih => exact (prefix_note seen x).trans (ih _)

-- Slots are places in the list of names.
theorem lookup_zipIdx (h : seen.Nodup) (x : String) :
    seen.zipIdx.reverse.lookup x = if x ∈ seen then some (seen.idxOf x) else none := by
  induction seen using List.reverseRecOn with
  | nil => rfl
  | append_singleton names a ih =>
      obtain ⟨hnames, -, ha⟩ := List.nodup_append.mp h
      rw [List.zipIdx_append, List.reverse_append]
      by_cases hx : x = a
      · subst hx
        have hnot : x ∉ names := fun hmem => ha x hmem x (by simp) rfl
        simp [List.idxOf_append_of_notMem hnot]
      · have hlookup := ih hnames
        by_cases hmem : x ∈ names
        · simp [hx, hmem, List.lookup_cons, beq_false_of_ne hx, hlookup,
            List.idxOf_append_of_mem hmem]
        · simp [hx, hmem, List.lookup_cons, beq_false_of_ne hx, hlookup]

theorem idxOf_of_begins {all : List String} (h : seen <+: all) (hx : x ∈ seen) :
    all.idxOf x = seen.idxOf x := by
  obtain ⟨more, rfl⟩ := h
  exact List.idxOf_append_of_mem hx

-- A name of the template itself is found among those met before, or is the next parameter.
theorem resolve_ofNames (h : seen.Nodup) (x : String) (pos : Position) :
    Build.resolve ⟨true, true⟩ x pos (.ofNames seen) =
      .ok ((note seen x).idxOf x, .ofNames (note seen x)) := by
  have hlookup := lookup_zipIdx h x
  by_cases hx : x ∈ seen
  · simp [Build.resolve, Draft.ofNames, Scopes.lookup, Scopes.frame, FrameScope.lookup,
      FrameScope.scopes, hlookup, hx, note]
  · simp [Build.resolve, Draft.ofNames, Scopes.lookup, Scopes.frame, FrameScope.lookup,
      FrameScope.scopes, hlookup, hx, note, Scopes.isRoot, Scopes.declareRoot,
      FrameScope.declareOutermost, FrameScope.allocate, List.zipIdx_append,
      List.idxOf_append_of_notMem hx]

end Formula

-- The token stands for what is written, wherever it stands itself.
def Written.Given (w : Written) (input : Input Sem) : Prop :=
  input.symbol = w.terminal.id ∧ input.value = .ofLexeme w.lexeme

abbrev GivenAll (ws : List Written) (inputs : List (Input Sem)) : Prop :=
  List.Forall₂ Written.Given ws inputs

theorem GivenAll.append {ws ws' : List Written} {inputs : List (Input Sem)}
    (h : GivenAll (ws ++ ws') inputs) :
    ∃ first rest, inputs = first ++ rest ∧ GivenAll ws first ∧ GivenAll ws' rest := by
  have hfirst := List.forall₂_take ws.length h
  have hrest := List.forall₂_drop ws.length h
  rw [List.take_left] at hfirst
  rw [List.drop_left] at hrest
  exact ⟨_, _, (List.take_append_drop _ _).symm, hfirst, hrest⟩

theorem GivenAll.cons {w : Written} {ws : List Written} {inputs : List (Input Sem)}
    (h : GivenAll (w :: ws) inputs) :
    ∃ input rest, inputs = input :: rest ∧ w.Given input ∧ GivenAll ws rest := by
  cases h with
  | cons first rest => exact ⟨_, _, rfl, first, rest⟩

def Precedence.nonterminal : Precedence → Nonterminal
  | or => .orExpr
  | and => .andExpr
  | bitOr => .bitOrExpr
  | bitXor => .bitXorExpr
  | bitAnd => .bitAndExpr
  | equality => .equalityExpr
  | relation => .relationExpr
  | shift => .shiftExpr
  | range => .rangeExpr
  | additive => .additiveExpr
  | product => .productExpr
  | unary => .unaryExpr
  | suffixed => .postfixExpr
  | primary => .primary

def BinaryOp.production : BinaryOp → Production
  | plus => .plus
  | minus => .minus
  | times => .times
  | divide => .divide
  | remainder => .remainder
  | bitAnd => .bitAnd
  | bitOr => .bitOr
  | bitXor => .bitXor
  | shiftLeft => .shiftLeft
  | shiftRight => .shiftRight
  | shiftRightZero => .shiftRightZero
  | equal => .equal
  | notEqual => .notEqual
  | less => .less
  | lessEqual => .lessEqual
  | greater => .greater
  | greaterEqual => .greaterEqual
  | range => .range

def UnaryOp.production : UnaryOp → Production
  | negative => .negative
  | not => .not
  | bitNot => .bitNot

-- The production for an expression that is held together tighter than needed.
def Precedence.production : Precedence → Production
  | or => .orOperand
  | and => .andOperand
  | bitOr => .bitOrOperand
  | bitXor => .bitXorOperand
  | bitAnd => .bitAndOperand
  | equality => .equalityOperand
  | relation => .relationOperand
  | shift => .shiftOperand
  | range => .rangeOperand
  | additive => .additiveOperand
  | product => .productOperand
  | unary => .unaryOperand
  | suffixed | primary => .postfixOperand

theorem BinaryOp.sides_production (op : BinaryOp) : op.production.sides =
    (op.precedence.nonterminal, [.n op.leftPrecedence.nonterminal, .t op.terminal,
      .n op.precedence.next.nonterminal]) := by
  cases op <;> rfl

theorem UnaryOp.sides_production (op : UnaryOp) : op.production.sides =
    (Precedence.unary.nonterminal, [.t op.terminal, .n Precedence.unary.nonterminal]) := by
  cases op <;> rfl

theorem Precedence.sides_production {p : Precedence} (h : p ≠ .primary) : p.production.sides =
    (p.nonterminal, [.n p.next.nonterminal]) := by
  cases p <;> first | rfl | exact absurd rfl h

-- What goes over to the next looser expressions goes over to all of them.
theorem Precedence.loosened {R : Nonterminal → Prop}
    (hstep : ∀ {p : Precedence}, p ≠ .primary → R p.next.nonterminal → R p.nonterminal)
    {p q : Precedence} (hle : p.rank ≤ q.rank) (h : R q.nonterminal) : R p.nonterminal := by
  by_cases heq : p = q
  · exact heq ▸ h
  · have hp : p ≠ .primary := by
      rintro rfl
      cases q <;> first | exact absurd rfl heq | exact absurd hle (by decide)
    have hnext : p.next.rank = p.rank + 1 := by
      cases p <;> first | rfl | exact absurd rfl hp
    have hlt : p.rank < q.rank := by
      refine Nat.lt_of_le_of_ne hle fun hrank => heq ?_
      revert hrank
      cases p <;> cases q <;> first | exact fun _ => rfl | exact fun h => absurd h (by decide)
    exact hstep hp (Precedence.loosened hstep (by omega) h)
termination_by q.rank - p.rank

abbrev building : BuildOptions := ⟨true, true⟩

-- Whatever names were met before, the builder makes the expression of the tokens. Its slots are
-- those of all names that are met in the end.
def Yields (s : Nonterminal) (ws : List Written) (names : List String)
    (e : (String → Nat) → Expr) : Prop :=
  ∀ seen inputs, seen.Nodup → GivenAll ws inputs →
    ∃ built pos, Makes building (.n s) inputs (.expr built) pos (.ofNames seen)
        (.ofNames (names.foldl Formula.note seen)) ∧
      ∀ {all}, names.foldl Formula.note seen <+: all → built.unplaced = e (all.idxOf ·)

-- The same for expressions with commas between them.
def YieldsAll (ws : List Written) (names : List String) (es : (String → Nat) → List Expr) : Prop :=
  ∀ seen inputs, seen.Nodup → GivenAll ws inputs →
    ∃ built pos, Makes building (.n .arguments) inputs (.exprs built) pos (.ofNames seen)
        (.ofNames (names.foldl Formula.note seen)) ∧
      ∀ {all}, names.foldl Formula.note seen <+: all → Expr.unplacedAll built = es (all.idxOf ·)

namespace Template

variable {options : BuildOptions} {tokens : List (Input Sem)} {v : Sem} {pos : Position}
  {d d' : Draft}

theorem Makes.pass {p : Production} {s t : Nonterminal} (hsides : p.sides = (s, [.n t]))
    (hp : ∀ h, Build.action options p h = Build.passOn h 0) (hne : p ≠ .start)
    (h : Makes options (.n t) tokens v pos d d') : Makes options (.n s) tokens v pos d d' := by
  have hacts : Acts options p [(v, pos)] d' v d' := by
    intro handle hhandle
    simp [hp, Build.passOn, hhandle]
  have hmade := Makes.production p hne (by rw [hsides]; exact h.single) hacts
  rwa [hsides] at hmade

theorem Makes.loosen {p : Precedence} (hp : p ≠ .primary)
    (h : Makes options (.n p.next.nonterminal) tokens v pos d d') :
    Makes options (.n p.nonterminal) tokens v pos d d' := by
  refine h.pass (Precedence.sides_production hp) ?_ (by cases p <;> decide)
  intro handle
  cases p <;> rfl

-- An expression may stand wherever a looser one may.
theorem Makes.lift {p q : Precedence} (hle : p.rank ≤ q.rank)
    (h : Makes options (.n q.nonterminal) tokens v pos d d') :
    Makes options (.n p.nonterminal) tokens v pos d d' :=
  Precedence.loosened (R := fun s => Makes options (.n s) tokens v pos d d')
    (fun hp => Makes.loosen hp) hle h

theorem Makes.expression {p : Precedence} (h : Makes options (.n p.nonterminal) tokens v pos d d') :
    Makes options (.n .expression) tokens v pos d d' := by
  have hloose : Makes options (.n Precedence.or.nonterminal) tokens v pos d d' :=
    h.lift (Nat.zero_le _)
  exact Makes.pass (p := .expression) rfl (fun _ => rfl) (by decide) hloose

end Template

theorem Yields.lift {p q : Precedence} {ws : List Written} {names : List String}
    {e : (String → Nat) → Expr} (hle : p.rank ≤ q.rank) (h : Yields q.nonterminal ws names e) :
    Yields p.nonterminal ws names e := by
  intro seen inputs hseen hinputs
  obtain ⟨built, pos, hmakes, hbuilt⟩ := h _ _ hseen hinputs
  exact ⟨built, pos, hmakes.lift hle, hbuilt⟩

-- The place of a token, and that it is what is written.
theorem Written.Given.makes {w : Written} {input : Input Sem} (h : w.Given input) (d : Draft) :
    Makes building (.t w.terminal) [input] (.ofLexeme w.lexeme) input.pos d d :=
  h.2 ▸ Makes.token h.1 d

section

variable {ws ws' : List Written} {names names' : List String} {e e' : (String → Nat) → Expr}

-- An operator between its operands.
theorem Yields.between {p : Production} {w : Written} {s l r : Nonterminal}
    (hsides : p.sides = (s, [.n l, .t w.terminal, .n r])) (hne : p ≠ .start)
    (make : Expr → Expr → Position → Expr)
    (hmake : ∀ a b pos, (make a b pos).unplaced = make a.unplaced b.unplaced ⟨0, 0⟩)
    (hacts : ∀ a b pa pb v pos d,
      Acts building p [(.expr a, pa), (v, pos), (.expr b, pb)] d (.expr (make a b pos)) d)
    (hl : Yields l ws names e) (hr : Yields r ws' names' e') :
    Yields s (ws ++ w :: ws') (names ++ names') fun slot => make (e slot) (e' slot) ⟨0, 0⟩ := by
  intro seen inputs hseen hinputs
  obtain ⟨first, others, rfl, hfirst, hothers⟩ := hinputs.append
  obtain ⟨input, rest, rfl, hinput, hrest⟩ := GivenAll.cons hothers
  obtain ⟨a, pa, hleft, ha⟩ := hl _ _ hseen hfirst
  obtain ⟨b, pb, hright, hb⟩ := hr _ _ (Formula.nodup_noteAll hseen names) hrest
  rw [List.foldl_append]
  refine ⟨make a b input.pos, pa, ?_, ?_⟩
  · have hparts : MakesAll building p.sides.2 (first ++ input :: rest)
        [(.expr a, pa), (.ofLexeme w.lexeme, input.pos), (.expr b, pb)] (.ofNames seen)
        (.ofNames (names'.foldl Formula.note (names.foldl Formula.note seen))) := by
      rw [hsides]
      exact EvaluatesAll.cons hleft (EvaluatesAll.cons (hinput.makes _) hright.single)
    have hmade := Makes.production p hne hparts (hacts a b pa pb _ input.pos _)
    rwa [hsides] at hmade
  · intro all hall
    rw [hmake, ha ((Formula.prefix_noteAll _ names').trans hall), hb hall]

-- An operator before its operand.
theorem Yields.unary (op : UnaryOp) (h : Yields Precedence.unary.nonterminal ws names e) :
    Yields Precedence.unary.nonterminal (.unary op :: ws) names
      fun slot => (Expr.unary op (e slot) ⟨0, 0⟩).optimize := by
  intro seen inputs hseen hinputs
  obtain ⟨input, rest, rfl, hinput, hrest⟩ := GivenAll.cons hinputs
  obtain ⟨a, pa, hmakes, ha⟩ := h _ _ hseen hrest
  refine ⟨(Expr.unary op a input.pos).optimize, input.pos, ?_, ?_⟩
  · have hacts : Acts building op.production
        [(.ofLexeme (Written.unary op).lexeme, input.pos), (.expr a, pa)]
        (.ofNames (names.foldl Formula.note seen)) (.expr (Expr.unary op a input.pos).optimize)
        (.ofNames (names.foldl Formula.note seen)) := by
      intro handle hhandle
      have haction :
          Build.action building op.production handle = Build.unary building op handle := by
        cases op <;> rfl
      simp [haction, Build.unary, Build.takeExpr, Build.takeAs, Build.folded, hhandle]
    have hparts : MakesAll building op.production.sides.2 (input :: rest)
        [(.ofLexeme (Written.unary op).lexeme, input.pos), (.expr a, pa)] (.ofNames seen)
        (.ofNames (names.foldl Formula.note seen)) := by
      rw [op.sides_production]
      exact EvaluatesAll.cons (hinput.makes _) hmakes.single
    have hmade := Makes.production op.production (by cases op <;> decide) hparts hacts
    rwa [op.sides_production] at hmade
  · intro all hall
    rw [Expr.optimize_unplaced, Expr.unplaced, ha hall]

theorem Yields.parenthesised (h : Yields .expression ws names e) :
    Yields .primary (Written.leftParen :: ws ++ [Written.rightParen]) names e := by
  intro seen inputs hseen hinputs
  obtain ⟨first, others, rfl, hfirst, hothers⟩ := GivenAll.append hinputs
  obtain ⟨opening, inner, rfl, hopening, hinner⟩ := GivenAll.cons hfirst
  obtain ⟨closing, rest, rfl, hclosing, hrest⟩ := GivenAll.cons hothers
  cases hrest
  obtain ⟨a, pa, hmakes, ha⟩ := h _ _ hseen hinner
  refine ⟨a, opening.pos, ?_, ha⟩
  have hparts := EvaluatesAll.cons (hopening.makes _)
    (EvaluatesAll.cons hmakes (hclosing.makes _).single)
  refine Makes.production .parenthesised (by decide) hparts ?_
  intro handle hhandle
  unfold Build.action
  simp [Build.passOn, hhandle]

theorem Yields.property (h : Yields .postfixExpr ws names e) (key : Identifier) :
    Yields .postfixExpr (ws ++ [Written.dot, .name key]) names
      fun slot => .property (e slot) key.text ⟨0, 0⟩ := by
  intro seen inputs hseen hinputs
  obtain ⟨first, others, rfl, hfirst, hothers⟩ := GivenAll.append hinputs
  obtain ⟨point, others, rfl, hpoint, hothers⟩ := GivenAll.cons hothers
  obtain ⟨word, rest, rfl, hword, hrest⟩ := GivenAll.cons hothers
  cases hrest
  obtain ⟨a, pa, hmakes, ha⟩ := h _ _ hseen hfirst
  refine ⟨.property a key.text point.pos, pa, ?_, ?_⟩
  · have hparts := EvaluatesAll.cons hmakes
      (EvaluatesAll.cons (hpoint.makes _) (hword.makes _).single)
    refine Makes.production .property (by decide) hparts ?_
    intro handle hhandle
    unfold Build.action
    simp [Build.takeExpr, Build.takeIdent, Build.takeAs, hhandle, Written.lexeme,
      Sem.ofLexeme]
  · intro all hall
    rw [Expr.unplaced, ha hall]

theorem Yields.index (h : Yields .postfixExpr ws names e)
    (hkey : Yields .expression ws' names' e') :
    Yields .postfixExpr (ws ++ Written.leftBracket :: ws' ++ [Written.rightBracket]) (names ++ names')
      fun slot => .index (e slot) (e' slot) ⟨0, 0⟩ := by
  intro seen inputs hseen hinputs
  rw [List.append_assoc, List.cons_append] at hinputs
  obtain ⟨first, others, rfl, hfirst, hothers⟩ := GivenAll.append hinputs
  obtain ⟨opening, others, rfl, hopening, hothers⟩ := GivenAll.cons hothers
  obtain ⟨inner, others, rfl, hinner, hothers⟩ := GivenAll.append hothers
  obtain ⟨closing, rest, rfl, hclosing, hrest⟩ := GivenAll.cons hothers
  cases hrest
  obtain ⟨a, pa, hmakes, ha⟩ := h _ _ hseen hfirst
  obtain ⟨b, pb, hinside, hb⟩ := hkey _ _ (Formula.nodup_noteAll hseen names) hinner
  rw [List.foldl_append]
  refine ⟨.index a b opening.pos, pa, ?_, ?_⟩
  · have hparts := EvaluatesAll.cons hmakes
      (EvaluatesAll.cons (hopening.makes _) (EvaluatesAll.cons hinside (hclosing.makes _).single))
    refine Makes.production .index (by decide) hparts ?_
    intro handle hhandle
    unfold Build.action
    simp [Build.takeExpr, Build.takeAs, hhandle]
  · intro all hall
    rw [Expr.unplaced, ha ((Formula.prefix_noteAll _ names').trans hall), hb hall]

theorem Yields.callNothing (h : Yields .postfixExpr ws names e) :
    Yields .postfixExpr (ws ++ [Written.leftParen, Written.rightParen]) names
      fun slot => .call (e slot) [] ⟨0, 0⟩ := by
  intro seen inputs hseen hinputs
  obtain ⟨first, others, rfl, hfirst, hothers⟩ := GivenAll.append hinputs
  obtain ⟨opening, others, rfl, hopening, hothers⟩ := GivenAll.cons hothers
  obtain ⟨closing, rest, rfl, hclosing, hrest⟩ := GivenAll.cons hothers
  cases hrest
  obtain ⟨a, pa, hmakes, ha⟩ := h _ _ hseen hfirst
  refine ⟨.call a [] opening.pos, pa, ?_, ?_⟩
  · have hparts := EvaluatesAll.cons hmakes
      (EvaluatesAll.cons (hopening.makes _) (hclosing.makes _).single)
    refine Makes.production .callNothing (by decide) hparts ?_
    intro handle hhandle
    unfold Build.action
    simp [Build.takeExpr, Build.takeAs, hhandle]
  · intro all hall
    rw [Expr.unplaced, ha hall, Expr.unplacedAll]

theorem Yields.call {es : (String → Nat) → List Expr} (h : Yields .postfixExpr ws names e)
    (hargs : YieldsAll ws' names' es) :
    Yields .postfixExpr (ws ++ Written.leftParen :: ws' ++ [Written.rightParen]) (names ++ names')
      fun slot => .call (e slot) (es slot) ⟨0, 0⟩ := by
  intro seen inputs hseen hinputs
  rw [List.append_assoc, List.cons_append] at hinputs
  obtain ⟨first, others, rfl, hfirst, hothers⟩ := GivenAll.append hinputs
  obtain ⟨opening, others, rfl, hopening, hothers⟩ := GivenAll.cons hothers
  obtain ⟨inner, others, rfl, hinner, hothers⟩ := GivenAll.append hothers
  obtain ⟨closing, rest, rfl, hclosing, hrest⟩ := GivenAll.cons hothers
  cases hrest
  obtain ⟨a, pa, hmakes, ha⟩ := h _ _ hseen hfirst
  obtain ⟨args, pb, hinside, hb⟩ := hargs _ _ (Formula.nodup_noteAll hseen names) hinner
  rw [List.foldl_append]
  refine ⟨.call a args opening.pos, pa, ?_, ?_⟩
  · have hparts := EvaluatesAll.cons hmakes
      (EvaluatesAll.cons (hopening.makes _) (EvaluatesAll.cons hinside (hclosing.makes _).single))
    refine Makes.production .call (by decide) hparts ?_
    intro handle hhandle
    unfold Build.action
    simp [Build.takeExpr, Build.takeExprs, Build.takeAs, hhandle]
  · intro all hall
    rw [Expr.unplaced, ha ((Formula.prefix_noteAll _ names').trans hall), hb hall]

theorem Yields.list {es : (String → Nat) → List Expr} (h : YieldsAll ws names es) :
    Yields .primary (Written.leftBracket :: ws ++ [Written.rightBracket]) names
      fun slot => .list (es slot) ⟨0, 0⟩ := by
  intro seen inputs hseen hinputs
  obtain ⟨first, others, rfl, hfirst, hothers⟩ := GivenAll.append hinputs
  obtain ⟨opening, inner, rfl, hopening, hinner⟩ := GivenAll.cons hfirst
  obtain ⟨closing, rest, rfl, hclosing, hrest⟩ := GivenAll.cons hothers
  cases hrest
  obtain ⟨items, pa, hmakes, ha⟩ := h _ _ hseen hinner
  refine ⟨.list items opening.pos, opening.pos, ?_, ?_⟩
  · have hparts := EvaluatesAll.cons (hopening.makes _)
      (EvaluatesAll.cons hmakes (hclosing.makes _).single)
    refine Makes.production .list (by decide) hparts ?_
    intro handle hhandle
    unfold Build.action
    simp [Build.takeExprs, Build.takeAs, hhandle]
  · intro all hall
    rw [Expr.unplaced, ha hall]

theorem YieldsAll.one (h : Yields .expression ws names e) :
    YieldsAll ws names fun slot => [e slot] := by
  intro seen inputs hseen hinputs
  obtain ⟨a, pa, hmakes, ha⟩ := h _ _ hseen hinputs
  refine ⟨[a], pa, ?_, ?_⟩
  · refine Makes.production .firstArgument (by decide) hmakes.single ?_
    intro handle hhandle
    unfold Build.action
    simp [Build.takeExpr, Build.takeAs, hhandle]
  · intro all hall
    rw [Expr.unplacedAll, ha hall, Expr.unplacedAll]

-- One more expression behind others.
theorem YieldsAll.more {es : (String → Nat) → List Expr} (h : YieldsAll ws names es)
    (hlast : Yields .expression ws' names' e') :
    YieldsAll (ws ++ Written.comma :: ws') (names ++ names') fun slot => es slot ++ [e' slot] := by
  intro seen inputs hseen hinputs
  obtain ⟨first, others, rfl, hfirst, hothers⟩ := GivenAll.append hinputs
  obtain ⟨comma, inner, rfl, hcomma, hinner⟩ := GivenAll.cons hothers
  obtain ⟨items, pa, hmakes, ha⟩ := h _ _ hseen hfirst
  obtain ⟨b, pb, hbehind, hb⟩ := hlast _ _ (Formula.nodup_noteAll hseen names) hinner
  rw [List.foldl_append]
  refine ⟨items ++ [b], pa, ?_, ?_⟩
  · have hparts := EvaluatesAll.cons hmakes (EvaluatesAll.cons (hcomma.makes _) hbehind.single)
    refine Makes.production .moreArguments (by decide) hparts ?_
    intro handle hhandle
    unfold Build.action
    simp [Build.takeExpr, Build.takeExprs, Build.takeAs, hhandle]
  · intro all hall
    have hitems := ha ((Formula.prefix_noteAll _ names').trans hall)
    rw [Expr.unplacedAll_eq_map] at hitems ⊢
    rw [List.map_append, hitems, List.map_singleton, hb hall]

end

end Stencil
