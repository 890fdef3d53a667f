import Stencil.Proofs.Language.Meaning
import Stencil.Proofs.Named.Effect

namespace Stencil

-- The name that an error about names is about.
def ParseFault.name? : ParseFault → Option String
  | undeclaredVariable name | duplicateVariable name | unknownLabel name => some name
  | _ => none

namespace Build

-- Where an action puts an error about a name: at an identifier of that name, or, if it is about a
-- name that is given to more than one parameter of a function, at the first parameter.
inductive Reports (p : Production) (h : Handle) (e : ParseError) (name : String) : Prop
  | identifier (i : Nat) (hsymbol : p.sides.2[i]? = some (.t .identifier))
      (hvalue : h.value? i = some (.identifier name)) (hpos : e.pos = h.posAt i)
  | parameter (hp : p = .functionHead) (hfault : e.fault = .duplicateVariable name)
      (names : List String) (hvalue : h.value? 2 = some (.params names))
      (hcount : 1 < names.count name) (hpos : e.pos = h.posAt 2)

-- Whatever names the errors of an action are about, they are put there.
def Points (p : Production) (h : Handle) (m : BuildM α) : Prop :=
  ∀ d e, m d = .error e → ∀ name, e.fault.name? = some name → Reports p h e name

variable {p : Production} {h : Handle}

theorem points_pure (a : α) : Points p h (pure a) := by
  rintro d e ⟨⟩

theorem points_get : Points p h (get : BuildM Draft) := by
  rintro d e ⟨⟩

theorem points_set (d' : Draft) : Points p h (set d' : BuildM PUnit) := by
  rintro d e ⟨⟩

theorem points_modifyScopes (change : Scopes → Scopes) : Points p h (modifyScopes change) := by
  rintro d e ⟨⟩

theorem points_bind {m : BuildM α} {f : α → BuildM β} (hm : Points p h m)
    (hf : ∀ a, Points p h (f a)) : Points p h (m >>= f) := by
  intro d e he
  rcases bind_eq_error.mp he with he | ⟨a, d₁, -, he⟩
  · exact hm d e he
  · exact hf a d₁ e he

-- An error that is not about names may stand anywhere.
theorem points_fail (pos : Position) {fault : ParseFault} (hfault : fault.name? = none) :
    Points p h (fail pos fault : BuildM α) := by
  rintro d e ⟨⟩ name hname
  rw [hfault] at hname
  cases hname

section Takes

theorem points_takeAs (expected : String) (select : Sem → Option α) (i : Nat) :
    Points p h (takeAs expected select h i) := by
  unfold takeAs
  split
  · exact points_pure _
  · exact points_fail _ rfl

-- What is taken may be anything.
theorem points_take {expected : String} {select : Sem → Option α} {i : Nat} {f : α → BuildM β}
    (hf : ∀ a, Points p h (f a)) : Points p h (takeAs expected select h i >>= f) :=
  points_bind (points_takeAs expected select i) hf

theorem takeAs_eq_ok {expected : String} {select : Sem → Option α} {i : Nat} {a : α} {d d' : Draft}
    (he : takeAs expected select h i d = .ok (a, d')) :
    (h.value? i).bind select = some a ∧ d' = d := by
  cases hselect : (h.value? i).bind select with
  | none =>
      rw [takeAs, hselect] at he
      cases he
  | some a' =>
      rw [takeAs, hselect] at he
      cases he
      exact ⟨rfl, rfl⟩

theorem takeIdent_eq_ok {i : Nat} {name : String} {d d' : Draft}
    (he : takeIdent h i d = .ok (name, d')) : h.value? i = some (.identifier name) ∧ d' = d := by
  obtain ⟨hselect, rfl⟩ := takeAs_eq_ok he
  obtain ⟨v, hv, hname⟩ := Option.bind_eq_some_iff.mp hselect
  cases v <;> cases hname
  exact ⟨hv, rfl⟩

theorem takeParams_eq_ok {i : Nat} {names : List String} {d d' : Draft}
    (he : takeParams h i d = .ok (names, d')) : h.value? i = some (.params names) ∧ d' = d := by
  obtain ⟨hselect, rfl⟩ := takeAs_eq_ok he
  obtain ⟨v, hv, hnames⟩ := Option.bind_eq_some_iff.mp hselect
  cases v <;> cases hnames
  exact ⟨hv, rfl⟩

-- Where a name is taken, there is an identifier of that name.
theorem points_takeIdent {i : Nat} {f : String → BuildM β}
    (hf : ∀ name, h.value? i = some (.identifier name) → Points p h (f name)) :
    Points p h (takeIdent h i >>= f) := by
  intro d e he
  rcases bind_eq_error.mp he with he | ⟨name, d₁, htake, he⟩
  · exact points_takeAs _ _ i d e he
  · exact hf name (takeIdent_eq_ok htake).1 d₁ e he

end Takes

section Names

variable {name : String} {i : Nat}

theorem reports_at (hsymbol : p.sides.2[i]? = some (.t .identifier))
    (hvalue : h.value? i = some (.identifier name)) {fault : ParseFault}
    (hfault : fault.name? = some name) :
    Points p h (fail (h.posAt i) fault : BuildM α) := by
  rintro d e ⟨⟩ other hother
  rw [hfault] at hother
  cases hother
  exact .identifier i hsymbol hvalue rfl

theorem points_resolve (options : BuildOptions) (hsymbol : p.sides.2[i]? = some (.t .identifier))
    (hvalue : h.value? i = some (.identifier name)) :
    Points p h (resolve options name (h.posAt i)) := by
  refine points_bind points_get fun d => ?_
  split
  · exact points_pure _
  · split
    · exact points_bind (points_set _) fun _ => points_pure _
    · exact reports_at hsymbol hvalue rfl

theorem points_declare (hsymbol : p.sides.2[i]? = some (.t .identifier))
    (hvalue : h.value? i = some (.identifier name)) : Points p h (declare name (h.posAt i)) := by
  refine points_bind points_get fun d => ?_
  split
  · exact points_bind (points_set _) fun _ => points_pure _
  · rename_i fault hfault
    obtain rfl := declare_fault hfault
    exact reports_at hsymbol hvalue rfl

theorem points_labelledTarget (hsymbol : p.sides.2[1]? = some (.t .identifier)) :
    Points p h (labelledTarget h) := by
  refine points_takeIdent fun label hvalue => points_bind points_get fun d => ?_
  split
  · split
    · exact points_pure _
    · exact reports_at hsymbol hvalue rfl
  · exact reports_at hsymbol hvalue rfl

end Names

section Parts

theorem points_declareHidden : Points p h declareHidden :=
  points_bind points_get fun _ => points_bind (points_set _) fun _ => points_pure _

theorem points_labelIndex (label : Option String) : Points p h (labelIndex label) :=
  points_bind points_get fun _ => points_bind (points_set _) fun _ => points_pure _

theorem points_innermostTarget (keyword : String) : Points p h (innermostTarget keyword h) := by
  refine points_bind points_get fun d => ?_
  split
  · exact points_pure _
  · exact points_fail _ rfl

theorem points_loopStatus : Points p h (loopStatus h) := by
  refine points_take fun property => ?_
  split
  · exact points_fail _ rfl
  · refine points_bind points_get fun d => ?_
    split
    · exact points_pure _
    · exact points_fail _ rfl

theorem points_mapM {f : Nat → BuildM α} {at? : Option Nat} (hf : ∀ i, Points p h (f i)) :
    Points p h (at?.mapM f) := by
  cases at? with
  | none => exact points_pure _
  | some i => exact points_bind (hf i) fun _ => points_pure _

variable (options : BuildOptions)

theorem points_binary (op : BinaryOp) : Points p h (binary options op h) :=
  points_take fun _ => points_take fun _ => points_pure _

theorem points_logical (make : Expr → Expr → Position → Expr) :
    Points p h (logical options make h) :=
  points_take fun _ => points_take fun _ => points_pure _

theorem points_unary (op : UnaryOp) : Points p h (unary options op h) :=
  points_take fun _ => points_pure _

theorem points_ifStatement (no : List Stmt) : Points p h (ifStatement options h no) :=
  points_take fun _ => points_take fun _ => points_pure _

theorem points_forHead {itemAt : Nat} (hsymbol : p.sides.2[itemAt]? = some (.t .identifier))
    (labelAt filterAt : Option Nat) : Points p h (forHead h labelAt itemAt filterAt) := by
  refine points_bind (points_mapM fun i => points_takeAs _ _ i) fun label => ?_
  refine points_takeIdent fun item hitem => points_take fun collection => ?_
  refine points_bind (points_mapM fun i => points_takeAs _ _ i) fun filter => ?_
  refine points_bind (points_labelIndex _) fun _ => points_bind (points_modifyScopes _) fun _ => ?_
  refine points_bind points_declareHidden fun _ => points_bind (points_declare hsymbol hitem) ?_
  exact fun _ => points_bind (points_modifyScopes _) fun _ => points_pure _

end Parts

section Parameters

variable {pos : Position} {d : Draft} {e : ParseError}

theorem declare_error {name : String} (h : declare name pos d = .error e) :
    e = ⟨pos, .duplicateVariable name⟩ ∧ d.frame.innermost.lookup name ≠ none := by
  rw [declare] at h
  rcases bind_eq_error.mp h with h | ⟨_, _, hget, h⟩
  · cases h
  · cases hget
    have hframe : d.scopes.frame = d.frame := rfl
    simp only [Scopes.declare, FrameScope.declare, hframe] at h
    cases hlookup : d.frame.innermost.lookup name with
    | some slot =>
        simp only [hlookup, Option.isSome_some, if_true, Except.map] at h
        cases h
        exact ⟨rfl, Option.some_ne_none slot⟩
    | none =>
        simp only [hlookup, Option.isSome_none, Bool.false_eq_true, if_false, Except.map] at h
        cases h

-- The parameters of a function are declared one after the other, in a frame that has no other
-- names, so what is declared twice is twice among them.
theorem declareAll_error {first rest : List String}
    (h : declareAll pos rest (d.openFunction first) = .error e) :
    ∃ name, e = ⟨pos, .duplicateVariable name⟩ ∧ 1 < (first ++ rest).count name := by
  induction rest generalizing first with
  | nil => cases h
  | cons name rest ih =>
      rw [declareAll] at h
      rcases bind_eq_error.mp h with hdeclare | ⟨slot, d₁, hdeclare, h⟩
      · obtain ⟨rfl, hlookup⟩ := declare_error hdeclare
        have hmem : name ∈ first := by
          rw [ne_eq, Scope.lookup_eq_none, not_not,
            show (d.openFunction first).frame.innermost = first.zipIdx.reverse from rfl,
            List.map_reverse, List.zipIdx_map_fst, List.mem_reverse] at hlookup
          exact hlookup
        have hcount := List.count_pos_iff.mpr hmem
        refine ⟨name, rfl, ?_⟩
        rw [List.count_append, List.count_cons_self]
        omega
      · obtain ⟨-, rfl⟩ := declare_openFunction hdeclare
        obtain ⟨other, he, hcount⟩ := ih h
        rw [List.append_assoc] at hcount
        exact ⟨other, he, hcount⟩

theorem points_functionHead (options : BuildOptions) :
    Points .functionHead h (action options .functionHead h) := by
  intro d e he name hname
  change (takeParams h 2 >>= fun params => modifyScopes .pushFrame >>= fun _ =>
    declareAll (h.posAt 2) params >>= fun _ => pure (Sem.functionHead params.length)) d =
      .error e at he
  rcases bind_eq_error.mp he with htake | ⟨names, _, htake, hopen⟩
  · exact points_takeAs _ _ 2 d e htake name hname
  have hvalue := (takeParams_eq_ok htake).1
  rcases bind_eq_error.mp hopen with hpush | ⟨_, _, hpush, hdeclare⟩
  · cases hpush
  cases hpush
  rcases bind_eq_error.mp hdeclare with hall | ⟨_, _, _, hpure⟩
  · obtain ⟨other, rfl, hcount⟩ := @declareAll_error _ _ _ [] _ hall
    cases hname
    exact .parameter rfl rfl names hvalue hcount rfl
  · cases hpure

end Parameters

-- Every error about a name is put at the name, but for that of a parameter that is there already.
theorem action_points (options : BuildOptions) : Points p h (action options p h) := by
  cases p with
  | start | placeholder | expressionStatement | blockStatement | returnValue | callNothing
  | firstArgument | integer | float | string | list | text | forIn | firstParameter =>
      exact points_take fun _ => points_pure _
  | noStatements | emptyStatement | returnNothing | literalTrue | literalFalse | literalNull
  | emptyList => exact points_pure _
  | template | ifStatement | forStatement | expression | orOperand | andOperand
  | bitOrOperand | bitXorOperand | bitAndOperand | equalityOperand | relationOperand
  | shiftOperand | rangeOperand | additiveOperand | productOperand | unaryOperand
  | postfixOperand | functionOperand | parenthesised => exact points_pure _
  | moreStatements =>
      refine points_take fun stmts => ?_
      split
      · exact points_pure _
      · exact points_pure _
      · exact points_pure _
      · exact points_fail _ rfl
  | declare =>
      exact points_takeIdent fun name hname =>
        points_bind (points_declare rfl hname) fun _ => points_pure _
  | declareAssign =>
      exact points_takeIdent fun name hname => points_take fun _ =>
        points_bind (points_declare rfl hname) fun _ => points_pure _
  | assign =>
      exact points_takeIdent fun name hname => points_take fun _ =>
        points_bind (points_resolve options rfl hname) fun _ => points_pure _
  | readVariable =>
      exact points_takeIdent fun name hname =>
        points_bind (points_resolve options rfl hname) fun _ => points_pure _
  | setProperty | setIndex =>
      exact points_take fun _ => points_take fun _ => points_take fun _ => points_pure _
  | forInElse | property | index | call | moreArguments | moreParameters =>
      exact points_take fun _ => points_take fun _ => points_pure _
  | breakInnermost | continueInnermost =>
      exact points_bind (points_innermostTarget _) fun _ => points_pure _
  | breakLabel | continueLabel =>
      exact points_bind (points_labelledTarget rfl) fun _ => points_pure _
  | blockOpen | functionHeadNothing =>
      exact points_bind (points_modifyScopes _) fun _ => points_pure _
  | block =>
      exact points_bind (points_modifyScopes _) fun _ => points_take fun _ => points_pure _
  | ifThen => exact points_ifStatement options _
  | ifThenElse | ifThenElseIf => exact points_take fun _ => points_ifStatement options _
  | forHead | forHeadWhere | forHeadLabel | forHeadLabelWhere => exact points_forHead rfl _ _
  | forLoop =>
      exact points_take fun _ => points_take fun _ => points_bind (points_modifyScopes _) fun _ =>
        points_bind (points_modifyScopes _) fun _ => points_pure _
  | or | and => exact points_logical options _
  | bitOr | bitXor | bitAnd | equal | notEqual | less | lessEqual | greater | greaterEqual
  | shiftLeft | shiftRight | shiftRightZero | range | plus | minus | times | divide | remainder =>
      exact points_binary options _
  | negative | not | bitNot => exact points_unary options _
  | loopStatus => exact points_loopStatus
  | functionHead => exact points_functionHead options
  | function =>
      exact points_take fun _ => points_take fun _ => points_bind points_get fun _ =>
        points_bind (points_set _) fun _ => points_pure _

end Build

end Stencil
