import Mathlib.Logic.Function.Defs
import Stencil.Proofs.Named.Tree
import Stencil.Tree.Scope

namespace Stencil.Named

-- A loop around the current place.
structure Loop where
  label : Option String
  iterSlot : Nat

-- What a block, the head of a loop or a function declares, the last name first. The head of a loop
-- also has the loop.
structure Region where
  names : Stencil.Scope
  loop : Option Loop

namespace Region

def block : Region := ⟨[], none⟩

def loopHead (label : Option String) (iterSlot : Nat) (item : String) (itemSlot : Nat) : Region :=
  ⟨[(item, itemSlot)], some ⟨label, iterSlot⟩⟩

-- The parameters of a function are its first slots.
def parameters (params : List String) : Region := ⟨params.zipIdx.reverse, none⟩

def slots (r : Region) : List Nat := r.names.map Prod.snd ++ (r.loop.map Loop.iterSlot).toList

end Region

-- The regions of one frame around a place, the innermost first.
abbrev Context := List Region

namespace Context

def lookup (Γ : Context) (name : String) : Option Nat := Γ.findSome? fun r => r.names.lookup name

def loops (Γ : Context) : List Loop := Γ.filterMap Region.loop

-- The slots in use.
def slots (Γ : Context) : List Nat := Γ.flatMap Region.slots

def bind (Γ : Context) (name : String) (slot : Nat) : Context :=
  match Γ with
  | [] => []
  | r :: rest => { r with names := (name, slot) :: r.names } :: rest

theorem loops_cons (r : Region) (Γ : Context) :
    loops (r :: Γ) = r.loop.toList ++ Context.loops Γ := by
  obtain ⟨names, loop⟩ := r
  cases loop <;> rfl

theorem slots_cons (r : Region) (Γ : Context) : slots (r :: Γ) = r.slots ++ Context.slots Γ := rfl

end Context

-- What is settled for a whole frame: how labels are numbered, which names that nobody declares have
-- which slots, and how many slots there are. Zero is left for loops without a label.
structure Terms where
  number : String → Nat
  injective : Function.Injective number
  positive : ∀ label, 0 < number label
  params : List (String × Nat)
  size : Nat

namespace Terms

variable (T : Terms)

def labelNumber : Option String → Nat
  | none => 0
  | some label => T.number label

-- The name means the slot: that of the innermost declaration in sight, or that of a parameter.
def Resolves (Γ : Context) (name : String) (slot : Nat) : Prop :=
  Γ.lookup name = some slot ∨ Γ.lookup name = none ∧ (name, slot) ∈ T.params

-- A slot of the frame that nothing in sight uses.
structure Fresh (Γ : Context) (slot : Nat) : Prop where
  unused : slot ∉ Γ.slots
  noParam : slot ∉ T.params.map Prod.snd
  lt : slot < T.size

-- A jump without a label needs a loop around it, one with a label a loop of that label.
def Jumps (Γ : Context) : Option (String × Nat) → Prop
  | none => Γ.loops ≠ []
  | some (label, number) => number = T.number label ∧ ∃ l ∈ Γ.loops, l.label = some label

-- A function sees nothing of what is around it.
def within (frameSize : Nat) : Terms := { T with params := [], size := frameSize }

end Terms

-- Where a statement leaves its region.
def Stmt.after (Γ : Context) : Stmt Nat → Context
  | .declare name slot _ _ => Γ.bind name slot
  | _ => Γ

def Stmt.afterAll (Γ : Context) : List (Stmt Nat) → Context
  | [] => Γ
  | s :: rest => Stmt.afterAll (s.after Γ) rest

-- Declarations change the first region only, and leave its loop.
theorem Stmt.after_region (r : Region) (Γ : Context) (s : Stmt Nat) :
    ∃ names, s.after (r :: Γ) = ⟨names, r.loop⟩ :: Γ := by
  cases s with
  | declare name slot value pos => exact ⟨(name, slot) :: r.names, rfl⟩
  | _ => exact ⟨r.names, rfl⟩

theorem Stmt.afterAll_region (r : Region) (Γ : Context) (ss : List (Stmt Nat)) :
    ∃ names, Stmt.afterAll (r :: Γ) ss = ⟨names, r.loop⟩ :: Γ := by
  induction ss generalizing r with
  | nil => exact ⟨r.names, rfl⟩
  | cons s rest ih =>
      obtain ⟨names, hafter⟩ := s.after_region r Γ
      rw [Stmt.afterAll, hafter]
      exact ih ⟨names, r.loop⟩

-- The slots handed out for declarations and loops of one frame, in the order of the source.
section Binders

variable {σ : Type}

mutual

def Stmt.binders : Stmt σ → List σ
  | .declare _ slot _ _ => [slot]
  | .block body => Stmt.bindersAll body
  | .ifThen _ yes _ => Stmt.bindersAll yes
  | .ifThenElse _ yes no _ => Stmt.bindersAll yes ++ Stmt.bindersAll no
  | .ifThenElseIf _ yes next _ => Stmt.bindersAll yes ++ next.binders
  | .forIn _ _ _ iterSlot itemSlot _ _ body otherwise _ =>
    [iterSlot, itemSlot] ++ Stmt.bindersAll body ++ Stmt.bindersOption otherwise
  | _ => []

def Stmt.bindersAll : List (Stmt σ) → List σ
  | [] => []
  | s :: rest => s.binders ++ Stmt.bindersAll rest

def Stmt.bindersOption : Option (List (Stmt σ)) → List σ
  | none => []
  | some body => Stmt.bindersAll body

end

end Binders

-- Every name and every jump means what it says, and every declaration has a slot of its own. The
-- slots of a function are those of its parameters and those that its body hands out.
mutual

def Expr.Scoped (T : Terms) (Γ : Context) : Expr Nat → Prop
  | .direct _ _ => True
  | .var name slot _ => T.Resolves Γ name slot
  | .iter slot _ => Γ.loops.head?.map Loop.iterSlot = some slot
  | .binary _ left right _ | .and left right _ | .or left right _ =>
    left.Scoped T Γ ∧ right.Scoped T Γ
  | .unary _ operand _ => operand.Scoped T Γ
  | .property target _ _ => target.Scoped T Γ
  | .index target key _ => target.Scoped T Γ ∧ key.Scoped T Γ
  | .call callee args _ => callee.Scoped T Γ ∧ Expr.AllScoped T Γ args
  | .function params frameSize body _ =>
    List.range params.length ++ Stmt.bindersAll body = List.range frameSize ∧
      Stmt.AllScoped (T.within frameSize) [.block, .parameters params] body
  | .list items _ => Expr.AllScoped T Γ items

def Expr.AllScoped (T : Terms) (Γ : Context) : List (Expr Nat) → Prop
  | [] => True
  | e :: rest => e.Scoped T Γ ∧ Expr.AllScoped T Γ rest

def Expr.OptionScoped (T : Terms) (Γ : Context) : Option (Expr Nat) → Prop
  | none => True
  | some e => e.Scoped T Γ

def Stmt.Scoped (T : Terms) (Γ : Context) : Stmt Nat → Prop
  | .text _ _ => True
  | .placeholder expr _ | .expr expr => expr.Scoped T Γ
  | .declare _ slot value _ => Expr.OptionScoped T Γ value ∧ T.Fresh Γ slot
  | .assign name slot value _ => value.Scoped T Γ ∧ T.Resolves Γ name slot
  | .setProperty target _ value _ => target.Scoped T Γ ∧ value.Scoped T Γ
  | .setIndex target key value _ => target.Scoped T Γ ∧ key.Scoped T Γ ∧ value.Scoped T Γ
  | .block body => Stmt.AllScoped T (.block :: Γ) body
  | .ifThen test yes _ => test.Scoped T Γ ∧ Stmt.AllScoped T (.block :: Γ) yes
  | .ifThenElse test yes no _ =>
    test.Scoped T Γ ∧ Stmt.AllScoped T (.block :: Γ) yes ∧ Stmt.AllScoped T (.block :: Γ) no
  | .ifThenElseIf test yes next _ =>
    test.Scoped T Γ ∧ Stmt.AllScoped T (.block :: Γ) yes ∧ next.Scoped T Γ ∧ next.after Γ = Γ
  | .forIn label number item iterSlot itemSlot collection filter body otherwise _ =>
    collection.Scoped T Γ ∧ Expr.OptionScoped T Γ filter ∧ number = T.labelNumber label ∧
      T.Fresh Γ iterSlot ∧ T.Fresh Γ itemSlot ∧ iterSlot ≠ itemSlot ∧
      Stmt.AllScoped T (.block :: .loopHead label iterSlot item itemSlot :: Γ) body ∧
      Stmt.OptionScoped T (.block :: Γ) otherwise
  | .ret value _ => Expr.OptionScoped T Γ value
  | .brk label _ | .cont label _ => T.Jumps Γ label

def Stmt.AllScoped (T : Terms) (Γ : Context) : List (Stmt Nat) → Prop
  | [] => True
  | s :: rest => s.Scoped T Γ ∧ Stmt.AllScoped T (s.after Γ) rest

def Stmt.OptionScoped (T : Terms) (Γ : Context) : Option (List (Stmt Nat)) → Prop
  | none => True
  | some body => Stmt.AllScoped T Γ body

end

end Stencil.Named
