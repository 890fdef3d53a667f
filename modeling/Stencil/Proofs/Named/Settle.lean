import Stencil.Proofs.Named.Scoping

namespace Stencil.Named

section Binders

variable {σ : Type}

mutual

theorem Stmt.binders_names (s : Stmt σ) : s.names.binders = s.binders.map fun _ => () := by
  cases s with
  | block body => exact Stmt.bindersAll_names body
  | ifThen test yes pos => exact Stmt.bindersAll_names yes
  | ifThenElse test yes no pos =>
      rw [Stmt.names, Stmt.binders, Stmt.binders, Stmt.bindersAll_names, Stmt.bindersAll_names,
        List.map_append]
  | ifThenElseIf test yes next pos =>
      rw [Stmt.names, Stmt.binders, Stmt.binders, Stmt.bindersAll_names, Stmt.binders_names,
        List.map_append]
  | forIn label number item iterSlot itemSlot collection filter body otherwise pos =>
      rw [Stmt.names, Stmt.binders, Stmt.binders, Stmt.bindersAll_names, Stmt.bindersOption_names,
        List.map_append, List.map_append]
      rfl
  | _ => rfl

theorem Stmt.bindersAll_names (ss : List (Stmt σ)) :
    Stmt.bindersAll (Stmt.namesAll ss) = (Stmt.bindersAll ss).map fun _ => () := by
  cases ss with
  | nil => rfl
  | cons s rest =>
      rw [Stmt.namesAll, Stmt.bindersAll, Stmt.bindersAll, Stmt.binders_names,
        Stmt.bindersAll_names, List.map_append]

theorem Stmt.bindersOption_names (ss : Option (List (Stmt σ))) :
    Stmt.bindersOption (Stmt.namesOption ss) = (Stmt.bindersOption ss).map fun _ => () := by
  cases ss with
  | none => rfl
  | some body => exact Stmt.bindersAll_names body

end

@[simp] theorem Stmt.length_binders_names (s : Stmt σ) :
    s.names.binders.length = s.binders.length := by
  rw [Stmt.binders_names, List.length_map]

@[simp] theorem Stmt.length_bindersAll_names (ss : List (Stmt σ)) :
    (Stmt.bindersAll (Stmt.namesAll ss)).length = (Stmt.bindersAll ss).length := by
  rw [Stmt.bindersAll_names, List.length_map]

end Binders

-- Resolves the names of a frame that has no parameters of the template, so of a function. Slots are
-- handed out in the order of the source, from the given one on.
mutual

def Expr.settle (number : String → Nat) (Γ : Context) : Expr Unit → Expr Nat
  | .direct value pos => .direct value pos
  | .var name _ pos => .var name ((Γ.lookup name).getD 0) pos
  | .iter _ pos => .iter ((Γ.loops.head?.map Loop.iterSlot).getD 0) pos
  | .binary op left right pos => .binary op (left.settle number Γ) (right.settle number Γ) pos
  | .unary op operand pos => .unary op (operand.settle number Γ) pos
  | .and left right pos => .and (left.settle number Γ) (right.settle number Γ) pos
  | .or left right pos => .or (left.settle number Γ) (right.settle number Γ) pos
  | .property target key pos => .property (target.settle number Γ) key pos
  | .index target key pos => .index (target.settle number Γ) (key.settle number Γ) pos
  | .call callee args pos => .call (callee.settle number Γ) (Expr.settleAll number Γ args) pos
  | .function params _ body pos =>
    .function params (params.length + (Stmt.bindersAll body).length)
      (Stmt.settleAll number [.block, .parameters params] params.length body) pos
  | .list items pos => .list (Expr.settleAll number Γ items) pos

def Expr.settleAll (number : String → Nat) (Γ : Context) : List (Expr Unit) → List (Expr Nat)
  | [] => []
  | e :: rest => e.settle number Γ :: Expr.settleAll number Γ rest

def Expr.settleOption (number : String → Nat) (Γ : Context) : Option (Expr Unit) → Option (Expr Nat)
  | none => none
  | some e => some (e.settle number Γ)

def Stmt.settle (number : String → Nat) (Γ : Context) (next : Nat) : Stmt Unit → Stmt Nat
  | .text text pos => .text text pos
  | .placeholder expr pos => .placeholder (expr.settle number Γ) pos
  | .expr expr => .expr (expr.settle number Γ)
  | .declare name _ value pos => .declare name next (Expr.settleOption number Γ value) pos
  | .assign name _ value pos =>
    .assign name ((Γ.lookup name).getD 0) (value.settle number Γ) pos
  | .setProperty target key value pos =>
    .setProperty (target.settle number Γ) key (value.settle number Γ) pos
  | .setIndex target key value pos =>
    .setIndex (target.settle number Γ) (key.settle number Γ) (value.settle number Γ) pos
  | .block body => .block (Stmt.settleAll number (.block :: Γ) next body)
  | .ifThen test yes pos =>
    .ifThen (test.settle number Γ) (Stmt.settleAll number (.block :: Γ) next yes) pos
  | .ifThenElse test yes no pos =>
    .ifThenElse (test.settle number Γ) (Stmt.settleAll number (.block :: Γ) next yes)
      (Stmt.settleAll number (.block :: Γ) (next + (Stmt.bindersAll yes).length) no) pos
  | .ifThenElseIf test yes other pos =>
    .ifThenElseIf (test.settle number Γ) (Stmt.settleAll number (.block :: Γ) next yes)
      (other.settle number Γ (next + (Stmt.bindersAll yes).length)) pos
  | .forIn label _ item _ _ collection filter body otherwise pos =>
    .forIn label ((label.map number).getD 0) item next (next + 1) (collection.settle number Γ)
      (Expr.settleOption number Γ filter)
      (Stmt.settleAll number (.block :: .loopHead label next item (next + 1) :: Γ) (next + 2) body)
      (Stmt.settleOption number (.block :: Γ) (next + 2 + (Stmt.bindersAll body).length) otherwise)
      pos
  | .ret value pos => .ret (Expr.settleOption number Γ value) pos
  | .brk label pos => .brk (label.map fun l => (l.1, number l.1)) pos
  | .cont label pos => .cont (label.map fun l => (l.1, number l.1)) pos

def Stmt.settleAll (number : String → Nat) (Γ : Context) (next : Nat) :
    List (Stmt Unit) → List (Stmt Nat)
  | [] => []
  | s :: rest =>
    s.settle number Γ next ::
      Stmt.settleAll number ((s.settle number Γ next).after Γ) (next + s.binders.length) rest

def Stmt.settleOption (number : String → Nat) (Γ : Context) (next : Nat) :
    Option (List (Stmt Unit)) → Option (List (Stmt Nat))
  | none => none
  | some body => some (Stmt.settleAll number Γ next body)

end

-- The slots follow each other.
def InOrder (next : Nat) (slots : List Nat) : Prop := slots = List.range' next slots.length

theorem inOrder_append {next : Nat} {slots slots' : List Nat} :
    InOrder next (slots ++ slots') ↔
      InOrder next slots ∧ InOrder (next + slots.length) slots' := by
  rw [InOrder, List.length_append, ← List.range'_append_1]
  constructor
  · intro h
    exact List.append_inj h (by rw [List.length_range'])
  · rintro ⟨h, h'⟩
    rw [← h, ← h']

theorem inOrder_cons {next slot : Nat} {slots : List Nat} :
    InOrder next (slot :: slots) ↔ slot = next ∧ InOrder (next + 1) slots := by
  rw [InOrder, List.length_cons, List.range'_succ, List.cons.injEq]
  rfl

theorem Terms.Resolves.lookup {T : Terms} {Γ : Context} {name : String} {slot : Nat}
    (hT : T.params = []) (h : T.Resolves Γ name slot) : (Γ.lookup name).getD 0 = slot := by
  rcases h with h | ⟨-, h⟩
  · rw [h]
    rfl
  · rw [hT] at h
    cases h

theorem Terms.labelNumber_eq (T : Terms) (label : Option String) :
    T.labelNumber label = (label.map T.number).getD 0 := by
  cases label <;> rfl

theorem Terms.Jumps.number_eq {T : Terms} {Γ : Context} {target : Option (String × Nat)}
    (h : T.Jumps Γ target) :
    (target.map fun l => (l.1, ())).map (fun l => (l.1, T.number l.1)) = target := by
  cases target with
  | none => rfl
  | some target =>
      obtain ⟨label, number⟩ := target
      rw [h.1]
      rfl

-- A function that is scoped rightly is what its names settle.
mutual

theorem Expr.settle_names {T : Terms} {Γ : Context} {e : Expr Nat} (hT : T.params = [])
    (h : e.Scoped T Γ) : e.names.settle T.number Γ = e := by
  cases e with
  | direct value pos => rfl
  | var name slot pos => rw [Expr.names, Expr.settle, h.lookup hT]
  | iter slot pos =>
      rw [Expr.Scoped] at h
      rw [Expr.names, Expr.settle, h]
      rfl
  | binary op left right pos =>
      rw [Expr.names, Expr.settle, Expr.settle_names hT h.1, Expr.settle_names hT h.2]
  | unary op operand pos => rw [Expr.names, Expr.settle, Expr.settle_names (e := operand) hT h]
  | and left right pos =>
      rw [Expr.names, Expr.settle, Expr.settle_names hT h.1, Expr.settle_names hT h.2]
  | or left right pos =>
      rw [Expr.names, Expr.settle, Expr.settle_names hT h.1, Expr.settle_names hT h.2]
  | property target key pos =>
      rw [Expr.names, Expr.settle, Expr.settle_names (e := target) hT h]
  | index target key pos =>
      rw [Expr.names, Expr.settle, Expr.settle_names hT h.1, Expr.settle_names hT h.2]
  | call callee args pos =>
      rw [Expr.names, Expr.settle, Expr.settle_names hT h.1, Expr.settleAll_names hT h.2]
  | function params frameSize body pos =>
      obtain ⟨hslots, hbody⟩ := h
      have hsize : params.length + (Stmt.bindersAll body).length = frameSize := by
        have hlength := congrArg List.length hslots
        rwa [List.length_append, List.length_range, List.length_range] at hlength
      have hordered : InOrder params.length (Stmt.bindersAll body) := by
        have hall : InOrder 0 (List.range params.length ++ Stmt.bindersAll body) := by
          rw [hslots, InOrder, List.length_range, List.range_eq_range']
        have hbehind := (inOrder_append.mp hall).2
        rwa [List.length_range, Nat.zero_add] at hbehind
      rw [Expr.names, Expr.settle, Stmt.length_bindersAll_names, hsize]
      exact congrArg (Expr.function params frameSize · pos)
        (Stmt.settleAll_names (T := T.within frameSize) rfl hordered hbody)
  | list items pos => rw [Expr.names, Expr.settle, Expr.settleAll_names hT h]

theorem Expr.settleAll_names {T : Terms} {Γ : Context} {es : List (Expr Nat)}
    (hT : T.params = []) (h : Expr.AllScoped T Γ es) :
    Expr.settleAll T.number Γ (Expr.namesAll es) = es := by
  cases es with
  | nil => rfl
  | cons e rest =>
      rw [Expr.namesAll, Expr.settleAll, Expr.settle_names hT h.1, Expr.settleAll_names hT h.2]

theorem Expr.settleOption_names {T : Terms} {Γ : Context} {e : Option (Expr Nat)}
    (hT : T.params = []) (h : Expr.OptionScoped T Γ e) :
    Expr.settleOption T.number Γ (Expr.namesOption e) = e := by
  cases e with
  | none => rfl
  | some e => rw [Expr.namesOption, Expr.settleOption, Expr.settle_names hT h]

theorem Stmt.settle_names {T : Terms} {Γ : Context} {next : Nat} {s : Stmt Nat}
    (hT : T.params = []) (hordered : InOrder next s.binders) (h : s.Scoped T Γ) :
    s.names.settle T.number Γ next = s := by
  cases s with
  | text text pos => rfl
  | placeholder expr pos => rw [Stmt.names, Stmt.settle, Expr.settle_names hT h]
  | expr expr => rw [Stmt.names, Stmt.settle, Expr.settle_names hT h]
  | declare name slot value pos =>
      obtain ⟨rfl, -⟩ := inOrder_cons.mp hordered
      rw [Stmt.names, Stmt.settle, Expr.settleOption_names hT h.1]
  | assign name slot value pos =>
      rw [Stmt.names, Stmt.settle, Expr.settle_names hT h.1, h.2.lookup hT]
  | setProperty target key value pos =>
      rw [Stmt.names, Stmt.settle, Expr.settle_names hT h.1, Expr.settle_names hT h.2]
  | setIndex target key value pos =>
      rw [Stmt.names, Stmt.settle, Expr.settle_names hT h.1, Expr.settle_names hT h.2.1,
        Expr.settle_names hT h.2.2]
  | block body => rw [Stmt.names, Stmt.settle, Stmt.settleAll_names hT hordered h]
  | ifThen test yes pos =>
      rw [Stmt.names, Stmt.settle, Expr.settle_names hT h.1, Stmt.settleAll_names hT hordered h.2]
  | ifThenElse test yes no pos =>
      obtain ⟨hyes, hno⟩ := inOrder_append.mp hordered
      rw [Stmt.names, Stmt.settle, Stmt.length_bindersAll_names, Expr.settle_names hT h.1,
        Stmt.settleAll_names hT hyes h.2.1, Stmt.settleAll_names hT hno h.2.2]
  | ifThenElseIf test yes other pos =>
      obtain ⟨hyes, hother⟩ := inOrder_append.mp hordered
      rw [Stmt.names, Stmt.settle, Stmt.length_bindersAll_names, Expr.settle_names hT h.1,
        Stmt.settleAll_names hT hyes h.2.1, Stmt.settle_names hT hother h.2.2.1]
  | forIn label number item iterSlot itemSlot collection filter body otherwise pos =>
      obtain ⟨hcollection, hfilter, rfl, -, -, -, hbody, hotherwise⟩ := h
      simp only [Stmt.binders, List.cons_append, List.nil_append, inOrder_cons,
        inOrder_append] at hordered
      obtain ⟨rfl, rfl, hinside, hbehind⟩ := hordered
      rw [Stmt.names, Stmt.settle, Stmt.length_bindersAll_names, Expr.settle_names hT hcollection,
        Expr.settleOption_names hT hfilter, Stmt.settleAll_names hT hinside hbody,
        Stmt.settleOption_names hT hbehind hotherwise, Terms.labelNumber_eq]
  | ret value pos => rw [Stmt.names, Stmt.settle, Expr.settleOption_names hT h]
  | brk label pos => rw [Stmt.names, Stmt.settle, h.number_eq]
  | cont label pos => rw [Stmt.names, Stmt.settle, h.number_eq]

theorem Stmt.settleAll_names {T : Terms} {Γ : Context} {next : Nat} {ss : List (Stmt Nat)}
    (hT : T.params = []) (hordered : InOrder next (Stmt.bindersAll ss))
    (h : Stmt.AllScoped T Γ ss) : Stmt.settleAll T.number Γ next (Stmt.namesAll ss) = ss := by
  cases ss with
  | nil => rfl
  | cons s rest =>
      obtain ⟨hfirst, hrest⟩ := inOrder_append.mp hordered
      rw [Stmt.namesAll, Stmt.settleAll, Stmt.length_binders_names,
        Stmt.settle_names hT hfirst h.1, Stmt.settleAll_names hT hrest h.2]

theorem Stmt.settleOption_names {T : Terms} {Γ : Context} {next : Nat}
    {ss : Option (List (Stmt Nat))} (hT : T.params = [])
    (hordered : InOrder next (Stmt.bindersOption ss)) (h : Stmt.OptionScoped T Γ ss) :
    Stmt.settleOption T.number Γ next (Stmt.namesOption ss) = ss := by
  cases ss with
  | none => rfl
  | some body => rw [Stmt.namesOption, Stmt.settleOption, Stmt.settleAll_names hT hordered h]

end

end Stencil.Named
