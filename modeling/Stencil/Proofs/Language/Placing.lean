import Stencil.Proofs.Language.Meaning
import Stencil.Proofs.Tree.Places

namespace Stencil

-- The places noted in a meaning.
def Sem.places : Sem → List Position
  | .expr e => e.places
  | .exprs es => Expr.placesAll es
  | .stmt s => s.places
  | .stmts ss => Stmt.placesAll ss
  | .forHead head => head.pos :: (head.collection.places ++ Expr.placesOption head.filter)
  | .forLoop head body =>
    head.pos :: (head.collection.places ++ Expr.placesOption head.filter) ++ Stmt.placesAll body
  | .none | .identifier _ | .literal _ | .text _ | .params _ | .functionHead _ => []

-- Symbols that always have a place: tokens, and the one non-terminal whose place is noted in a
-- tree.
def LanguageSymbol.isAnchored : LanguageSymbol → Bool
  | .t _ => true
  | .n .functionHead => true
  | .n _ => false

-- The places that a symbol brings into a tree: its own, if it has one for sure, and those of its
-- meaning.
def Stands (P : Position → Prop) (symbol : Symbol) (v : Sem) (pos : Position) : Prop :=
  (∀ p ∈ v.places, P p) ∧ ∀ s : LanguageSymbol, s.symbol = symbol → s.isAnchored = true → P pos

namespace Build

-- If the action gets to its end, its result has the property.
def Yields (m : BuildM α) (Q : α → Prop) : Prop := ∀ d a d', m d = .ok (a, d') → Q a

theorem yields_pure {Q : α → Prop} {a : α} (h : Q a) : Yields (pure a) Q := by
  rintro d a d' ⟨⟩
  exact h

theorem yields_bind {P : α → Prop} {Q : β → Prop} {m : BuildM α} {f : α → BuildM β}
    (hm : Yields m P) (hf : ∀ a, P a → Yields (f a) Q) : Yields (m >>= f) Q := by
  intro d b d' h
  simp only [bind, StateT.bind, Except.bind] at h
  cases hresult : m d with
  | error e =>
      rw [hresult] at h
      cases h
  | ok result =>
      rw [hresult] at h
      exact hf result.1 (hm d _ _ hresult) result.2 b d' h

theorem yields_anything (m : BuildM α) : Yields m fun _ => True := fun _ _ _ _ => trivial

theorem yields_fail {Q : α → Prop} (pos : Position) (fault : ParseFault) :
    Yields (fail pos fault) Q := by
  rintro d a d' ⟨⟩

-- What comes before does not matter for the result.
theorem yields_after {Q : β → Prop} (m : BuildM α) {f : α → BuildM β} (hf : ∀ a, Yields (f a) Q) :
    Yields (m >>= f) Q :=
  yields_bind (yields_anything m) fun a _ => hf a

variable {P : Position → Prop}

-- A handle whose meanings keep to the places, and whose anchored symbols stand in them.
structure Placed (P : Position → Prop) (p : Production) (h : Handle) : Prop where
  values : ∀ {i v}, h.value? i = some v → ∀ q ∈ v.places, P q
  anchor : ∀ (i : Nat) {s : LanguageSymbol}, p.sides.2[i]? = some s → s.isAnchored = true →
    P (h.posAt i)

theorem placed_of_stands {p : Production} {h : Handle}
    (hh : List.Forall₂ (fun s (x : Parser.Frame Sem) => Stands P s x.value x.pos) p.rule.right
      h.frames) : Placed P p h where
  values := by
    intro i v hv
    obtain ⟨frame, hframe, rfl⟩ := Option.map_eq_some_iff.mp hv
    obtain ⟨hi, rfl⟩ := List.getElem?_eq_some_iff.mp hframe
    have hlength := hh.length_eq
    exact (hh.get (hlength ▸ hi) hi).1
  anchor := by
    intro i s hs hanchored
    have hright : p.rule.right[i]? = some s.symbol := by simp [Production.rule, hs]
    obtain ⟨hi, hsymbol⟩ := List.getElem?_eq_some_iff.mp hright
    have hframe : i < h.frames.length := hh.length_eq ▸ hi
    have hstands := hh.get hi hframe
    simp only [List.get_eq_getElem, hsymbol] at hstands
    have hpos : h.posAt i = h.frames[i].pos := by
      simp [Parser.Handle.posAt, List.getElem?_eq_getElem hframe]
    rw [hpos]
    exact hstands.2 s rfl hanchored

section Takes

variable {p : Production} {h : Handle}

theorem takeAs_yields (hh : Placed P p h) {expected : String} {select : Sem → Option α} {i : Nat}
    {Q : α → Prop} (hselect : ∀ v a, select v = some a → (∀ q ∈ v.places, P q) → Q a) :
    Yields (takeAs expected select h i) Q := by
  unfold takeAs
  split
  · rename_i a ha
    obtain ⟨v, hv, hsome⟩ := Option.bind_eq_some_iff.mp ha
    exact yields_pure (hselect v a hsome (hh.values hv))
  · exact yields_fail _ _

theorem takeExpr_yields (hh : Placed P p h) (i : Nat) :
    Yields (takeExpr h i) fun e => ∀ q ∈ e.places, P q := by
  refine takeAs_yields hh ?_
  intro v e hv hplaces
  cases v <;> cases hv
  exact hplaces

theorem takeExprs_yields (hh : Placed P p h) (i : Nat) :
    Yields (takeExprs h i) fun es => ∀ q ∈ Expr.placesAll es, P q := by
  refine takeAs_yields hh ?_
  intro v es hv hplaces
  cases v <;> cases hv
  exact hplaces

theorem takeStmt_yields (hh : Placed P p h) (i : Nat) :
    Yields (takeStmt h i) fun s => ∀ q ∈ s.places, P q := by
  refine takeAs_yields hh ?_
  intro v s hv hplaces
  cases v <;> cases hv
  exact hplaces

theorem takeStmts_yields (hh : Placed P p h) (i : Nat) :
    Yields (takeStmts h i) fun ss => ∀ q ∈ Stmt.placesAll ss, P q := by
  refine takeAs_yields hh ?_
  intro v ss hv hplaces
  cases v <;> cases hv
  exact hplaces

theorem takeForHead_yields (hh : Placed P p h) (i : Nat) :
    Yields (takeForHead h i) fun head => ∀ q ∈ (Sem.forHead head).places, P q := by
  refine takeAs_yields hh ?_
  intro v head hv hplaces
  cases v <;> cases hv
  exact hplaces

theorem takeForLoop_yields (hh : Placed P p h) (i : Nat) :
    Yields (takeForLoop h i) fun found => ∀ q ∈ (Sem.forLoop found.1 found.2).places, P q := by
  refine takeAs_yields hh ?_
  intro v found hv hplaces
  cases v <;> cases hv
  exact hplaces

theorem passOn_yields (hh : Placed P p h) (i : Nat) :
    Yields (passOn h i) fun v => ∀ q ∈ v.places, P q := by
  refine yields_pure ?_
  cases hv : h.value? i with
  | none => exact List.forall_mem_nil _
  | some v => exact hh.values hv

end Takes

section Actions

variable {p : Production} {h : Handle} (options : BuildOptions)

theorem folded_places {e : Expr} (he : ∀ q ∈ e.places, P q) :
    ∀ q ∈ (folded options e).places, P q := by
  unfold folded
  split
  · exact Expr.places_optimize he
  · exact he

theorem binary_yields (hh : Placed P p h) (hpos : P (h.posAt 1)) (op : BinaryOp) :
    Yields (binary options op h) fun v => ∀ q ∈ v.places, P q := by
  refine yields_bind (takeExpr_yields hh 0) fun left hleft => ?_
  refine yields_bind (takeExpr_yields hh 2) fun right hright => ?_
  refine yields_pure (folded_places options ?_)
  exact List.forall_mem_cons.mpr ⟨hpos, List.forall_mem_append.mpr ⟨hleft, hright⟩⟩

theorem logical_yields (hh : Placed P p h) (hpos : P (h.posAt 1))
    {make : Expr → Expr → Position → Expr}
    (hmake : ∀ left right pos,
      (make left right pos).places = pos :: (left.places ++ right.places)) :
    Yields (logical options make h) fun v => ∀ q ∈ v.places, P q := by
  refine yields_bind (takeExpr_yields hh 0) fun left hleft => ?_
  refine yields_bind (takeExpr_yields hh 2) fun right hright => ?_
  refine yields_pure (folded_places options ?_)
  rw [hmake]
  exact List.forall_mem_cons.mpr ⟨hpos, List.forall_mem_append.mpr ⟨hleft, hright⟩⟩

theorem unary_yields (hh : Placed P p h) (hpos : P (h.posAt 0)) (op : UnaryOp) :
    Yields (unary options op h) fun v => ∀ q ∈ v.places, P q := by
  refine yields_bind (takeExpr_yields hh 1) fun operand hoperand => ?_
  exact yields_pure (folded_places options (List.forall_mem_cons.mpr ⟨hpos, hoperand⟩))

theorem ifStatement_yields (hh : Placed P p h) (hpos : P (h.posAt 0)) {no : List Stmt}
    (hno : ∀ q ∈ Stmt.placesAll no, P q) :
    Yields (ifStatement options h no) fun v => ∀ q ∈ v.places, P q := by
  refine yields_bind (takeExpr_yields hh 2) fun test htest => ?_
  refine yields_bind (takeStmts_yields hh 4) fun yes hyes => ?_
  have hcond : ∀ q ∈ (Stmt.cond test yes no (h.posAt 0)).places, P q :=
    List.forall_mem_cons.mpr ⟨hpos,
      List.forall_mem_append.mpr ⟨List.forall_mem_append.mpr ⟨htest, hyes⟩, hno⟩⟩
  refine yields_pure ?_
  split
  · exact Stmt.places_branch hcond
  · exact hcond

theorem forHead_yields (hh : Placed P p h) (hpos : P (h.posAt 0)) (labelAt : Option Nat)
    (itemAt : Nat) (filterAt : Option Nat) :
    Yields (forHead h labelAt itemAt filterAt) fun v => ∀ q ∈ v.places, P q := by
  refine yields_after _ fun label => yields_after _ fun item => ?_
  refine yields_bind (takeExpr_yields hh _) fun collection hcollection => ?_
  have hfilter : Yields (filterAt.mapM (takeExpr h)) fun filter =>
      ∀ q ∈ Expr.placesOption filter, P q := by
    cases filterAt with
    | none => exact yields_pure (List.forall_mem_nil _)
    | some i => exact yields_bind (takeExpr_yields hh i) fun filter hfilter => yields_pure hfilter
  refine yields_bind hfilter fun filter hfilter => ?_
  refine yields_after _ fun label => yields_after _ fun _ => yields_after _ fun iterSlot =>
    yields_after _ fun itemSlot => yields_after _ fun _ => yields_pure ?_
  exact List.forall_mem_cons.mpr ⟨hpos, List.forall_mem_append.mpr ⟨hcollection, hfilter⟩⟩

theorem forStatement_places {head : ForHead} {body : List Stmt} {otherwise : Option (List Stmt)}
    (hloop : ∀ q ∈ (Sem.forLoop head body).places, P q)
    (hotherwise : ∀ q ∈ Stmt.placesOption otherwise, P q) :
    ∀ q ∈ (forStatement head body otherwise).places, P q := by
  obtain ⟨hpos, hrest⟩ := List.forall_mem_cons.mp hloop
  obtain ⟨hhead, hbody⟩ := List.forall_mem_append.mp hrest
  exact List.forall_mem_cons.mpr ⟨hpos,
    List.forall_mem_append.mpr ⟨List.forall_mem_append.mpr ⟨hhead, hbody⟩, hotherwise⟩⟩

theorem moreStatements_yields (hh : Placed P .moreStatements h) :
    Yields (action options .moreStatements h) fun v => ∀ q ∈ v.places, P q := by
  refine yields_bind (takeStmts_yields hh 0) fun stmts hstmts => ?_
  split
  · rename_i s hs
    refine yields_pure ?_
    simp only [Sem.places, Stmt.placesAll_append, Stmt.placesAll, List.append_nil]
    exact List.forall_mem_append.mpr ⟨hstmts, hh.values hs⟩
  · exact yields_pure hstmts
  · exact yields_pure hstmts
  · exact yields_fail _ _

-- Every place that an action notes is that of a token or of the head of a function.
theorem action_yields (hh : Placed P p h) :
    Yields (action options p h) fun v => ∀ q ∈ v.places, P q := by
  have hleaf : ∀ {pos : Position}, P pos → ∀ q ∈ [pos], P q :=
    fun hpos => List.forall_mem_singleton.mpr hpos
  cases p with
  | start | blockStatement =>
      exact yields_bind (takeStmts_yields hh 0) fun ss hss => yields_pure hss
  | noStatements | emptyStatement => exact yields_pure (List.forall_mem_nil _)
  | moreStatements => exact moreStatements_yields options hh
  | text => exact yields_after _ fun text => yields_pure (hleaf (hh.anchor 0 rfl rfl))
  | placeholder =>
      exact yields_bind (takeExpr_yields hh 1) fun e he =>
        yields_pure (List.forall_mem_cons.mpr ⟨hh.anchor 0 rfl rfl, he⟩)
  | expressionStatement => exact yields_bind (takeExpr_yields hh 0) fun e he => yields_pure he
  | declare =>
      have hpos := hh.anchor 1 rfl rfl
      exact yields_after _ fun name => yields_after _ fun slot =>
        yields_pure (List.forall_mem_cons.mpr ⟨hpos, hleaf hpos⟩)
  | declareAssign =>
      exact yields_after _ fun name => yields_bind (takeExpr_yields hh 3) fun value hvalue =>
        yields_after _ fun slot =>
        yields_pure (List.forall_mem_cons.mpr ⟨hh.anchor 1 rfl rfl, hvalue⟩)
  | assign =>
      exact yields_after _ fun name => yields_bind (takeExpr_yields hh 2) fun value hvalue =>
        yields_after _ fun slot =>
        yields_pure (List.forall_mem_cons.mpr ⟨hh.anchor 0 rfl rfl, hvalue⟩)
  | setProperty =>
      exact yields_bind (takeExpr_yields hh 0) fun target htarget => yields_after _ fun key =>
        yields_bind (takeExpr_yields hh 4) fun value hvalue =>
        yields_pure (List.forall_mem_cons.mpr
          ⟨hh.anchor 1 rfl rfl, List.forall_mem_append.mpr ⟨htarget, hvalue⟩⟩)
  | setIndex =>
      exact yields_bind (takeExpr_yields hh 0) fun target htarget =>
        yields_bind (takeExpr_yields hh 2) fun key hkey =>
        yields_bind (takeExpr_yields hh 5) fun value hvalue =>
        yields_pure (List.forall_mem_cons.mpr ⟨hh.anchor 1 rfl rfl,
          List.forall_mem_append.mpr ⟨List.forall_mem_append.mpr ⟨htarget, hkey⟩, hvalue⟩⟩)
  | template | ifStatement | forStatement | expression | orOperand | andOperand
  | bitOrOperand | bitXorOperand | bitAndOperand | equalityOperand | relationOperand
  | shiftOperand | rangeOperand | additiveOperand | productOperand | unaryOperand
  | postfixOperand | functionOperand | parenthesised => exact passOn_yields hh _
  | returnNothing => exact yields_pure (hleaf (hh.anchor 0 rfl rfl))
  | returnValue =>
      exact yields_bind (takeExpr_yields hh 1) fun e he =>
        yields_pure (List.forall_mem_cons.mpr ⟨hh.anchor 0 rfl rfl, he⟩)
  | breakInnermost | breakLabel | continueInnermost | continueLabel =>
      exact yields_after _ fun label => yields_pure (hleaf (hh.anchor 0 rfl rfl))
  | blockOpen => exact yields_after _ fun _ => yields_pure (List.forall_mem_nil _)
  | block =>
      exact yields_after _ fun _ =>
        yields_bind (takeStmts_yields hh 1) fun ss hss => yields_pure hss
  | ifThen => exact ifStatement_yields options hh (hh.anchor 0 rfl rfl) (List.forall_mem_nil _)
  | ifThenElse =>
      exact yields_bind (takeStmts_yields hh 6) fun no hno =>
        ifStatement_yields options hh (hh.anchor 0 rfl rfl) hno
  | ifThenElseIf =>
      refine yields_bind (takeStmt_yields hh 6) fun no hno => ?_
      refine ifStatement_yields options hh (hh.anchor 0 rfl rfl) ?_
      rw [Stmt.placesAll, Stmt.placesAll, List.append_nil]
      exact hno
  | forHead | forHeadWhere | forHeadLabel | forHeadLabelWhere =>
      exact forHead_yields hh (hh.anchor 0 rfl rfl) _ _ _
  | forLoop =>
      exact yields_bind (takeForHead_yields hh 0) fun head hhead =>
        yields_bind (takeStmts_yields hh 1) fun body hbody =>
        yields_after _ fun _ => yields_after _ fun _ =>
        yields_pure (List.forall_mem_append.mpr ⟨hhead, hbody⟩)
  | forIn =>
      exact yields_bind (takeForLoop_yields hh 0) fun found hfound =>
        yields_pure (forStatement_places hfound (List.forall_mem_nil _))
  | forInElse =>
      exact yields_bind (takeForLoop_yields hh 0) fun found hfound =>
        yields_bind (takeStmts_yields hh 2) fun otherwise hotherwise =>
        yields_pure (forStatement_places hfound hotherwise)
  | or | and => exact logical_yields options hh (hh.anchor 1 rfl rfl) fun _ _ _ => rfl
  | bitOr | bitXor | bitAnd | equal | notEqual | less | lessEqual | greater | greaterEqual
  | shiftLeft | shiftRight | shiftRightZero | range | plus | minus | times | divide | remainder =>
      exact binary_yields options hh (hh.anchor 1 rfl rfl) _
  | negative | not | bitNot => exact unary_yields options hh (hh.anchor 0 rfl rfl) _
  | property =>
      exact yields_bind (takeExpr_yields hh 0) fun target htarget => yields_after _ fun key =>
        yields_pure (List.forall_mem_cons.mpr ⟨hh.anchor 1 rfl rfl, htarget⟩)
  | index =>
      exact yields_bind (takeExpr_yields hh 0) fun target htarget =>
        yields_bind (takeExpr_yields hh 2) fun key hkey =>
        yields_pure (List.forall_mem_cons.mpr
          ⟨hh.anchor 1 rfl rfl, List.forall_mem_append.mpr ⟨htarget, hkey⟩⟩)
  | callNothing =>
      exact yields_bind (takeExpr_yields hh 0) fun callee hcallee =>
        yields_pure (List.forall_mem_cons.mpr
          ⟨hh.anchor 1 rfl rfl, List.forall_mem_append.mpr ⟨hcallee, List.forall_mem_nil _⟩⟩)
  | call =>
      exact yields_bind (takeExpr_yields hh 0) fun callee hcallee =>
        yields_bind (takeExprs_yields hh 2) fun args hargs =>
        yields_pure (List.forall_mem_cons.mpr
          ⟨hh.anchor 1 rfl rfl, List.forall_mem_append.mpr ⟨hcallee, hargs⟩⟩)
  | firstArgument =>
      refine yields_bind (takeExpr_yields hh 0) fun e he => yields_pure ?_
      simp only [Sem.places, Expr.placesAll, List.append_nil]
      exact he
  | moreArguments =>
      refine yields_bind (takeExprs_yields hh 0) fun args hargs => ?_
      refine yields_bind (takeExpr_yields hh 2) fun e he => yields_pure ?_
      simp only [Sem.places, Expr.placesAll_append, Expr.placesAll, List.append_nil]
      exact List.forall_mem_append.mpr ⟨hargs, he⟩
  | readVariable =>
      exact yields_after _ fun name => yields_after _ fun slot =>
        yields_pure (hleaf (hh.anchor 0 rfl rfl))
  | integer | float | string =>
      exact yields_after _ fun value => yields_pure (hleaf (hh.anchor 0 rfl rfl))
  | literalTrue | literalFalse | literalNull | emptyList =>
      exact yields_pure (hleaf (hh.anchor 0 rfl rfl))
  | list =>
      exact yields_bind (takeExprs_yields hh 1) fun items hitems =>
        yields_pure (List.forall_mem_cons.mpr ⟨hh.anchor 0 rfl rfl, hitems⟩)
  | loopStatus =>
      refine yields_after _ fun property => ?_
      split
      · exact yields_fail _ _
      · refine yields_after _ fun d => ?_
        split
        · exact yields_pure (hleaf (hh.anchor 0 rfl rfl))
        · exact yields_fail _ _
  | functionHeadNothing | firstParameter =>
      exact yields_after _ fun _ => yields_pure (List.forall_mem_nil _)
  | functionHead =>
      exact yields_after _ fun _ => yields_after _ fun _ => yields_after _ fun _ =>
        yields_pure (List.forall_mem_nil _)
  | moreParameters =>
      exact yields_after _ fun _ => yields_after _ fun _ => yields_pure (List.forall_mem_nil _)
  | function =>
      exact yields_after _ fun arity => yields_bind (takeStmts_yields hh 1) fun body hbody =>
        yields_after _ fun d => yields_after _ fun _ =>
        yields_pure (List.forall_mem_cons.mpr ⟨hh.anchor 0 rfl rfl, hbody⟩)

end Actions

end Build

end Stencil
