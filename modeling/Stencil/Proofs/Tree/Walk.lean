import Stencil.Proofs.Tree.Fold

namespace Stencil

-- The slots that a tree reads or writes in its own frame. Functions have frames of their own.
mutual

def Expr.slots : Expr → List Nat
  | .direct _ _ | .function _ _ _ _ => []
  | .var slot _ => [slot]
  | .binary _ left right _ | .and left right _ | .or left right _ => left.slots ++ right.slots
  | .unary _ operand _ => operand.slots
  | .property target _ _ => target.slots
  | .index target key _ => target.slots ++ key.slots
  | .call callee args _ => callee.slots ++ Expr.slotsAll args
  | .list items _ => Expr.slotsAll items

def Expr.slotsAll : List Expr → List Nat
  | [] => []
  | e :: rest => e.slots ++ Expr.slotsAll rest

def Expr.slotsOption : Option Expr → List Nat
  | none => []
  | some e => e.slots

def Stmt.slots : Stmt → List Nat
  | .text _ _ | .brk _ _ | .cont _ _ => []
  | .placeholder expr _ | .expr expr => expr.slots
  | .assign slot value _ => slot :: value.slots
  | .setProperty target _ value _ => target.slots ++ value.slots
  | .setIndex target key value _ => target.slots ++ key.slots ++ value.slots
  | .block body => Stmt.slotsAll body
  | .cond test yes no _ => test.slots ++ Stmt.slotsAll yes ++ Stmt.slotsAll no
  | .forIn _ iterSlot itemSlot collection filter body otherwise _ =>
    iterSlot :: itemSlot :: (collection.slots ++ Expr.slotsOption filter ++ Stmt.slotsAll body ++
      Stmt.slotsOption otherwise)
  | .ret value _ => Expr.slotsOption value

def Stmt.slotsAll : List Stmt → List Nat
  | [] => []
  | s :: rest => s.slots ++ Stmt.slotsAll rest

def Stmt.slotsOption : Option (List Stmt) → List Nat
  | none => []
  | some body => Stmt.slotsAll body

end

-- The functions in a tree, those inside other functions included.
mutual

def Expr.functions : Expr → List FunctionDecl
  | .direct _ _ | .var _ _ => []
  | .binary _ left right _ | .and left right _ | .or left right _ =>
    left.functions ++ right.functions
  | .unary _ operand _ => operand.functions
  | .property target _ _ => target.functions
  | .index target key _ => target.functions ++ key.functions
  | .call callee args _ => callee.functions ++ Expr.functionsAll args
  | .function arity frameSize body pos =>
    ⟨arity, frameSize, body, pos⟩ :: Stmt.functionsAll body
  | .list items _ => Expr.functionsAll items

def Expr.functionsAll : List Expr → List FunctionDecl
  | [] => []
  | e :: rest => e.functions ++ Expr.functionsAll rest

def Expr.functionsOption : Option Expr → List FunctionDecl
  | none => []
  | some e => e.functions

def Stmt.functions : Stmt → List FunctionDecl
  | .text _ _ | .brk _ _ | .cont _ _ => []
  | .placeholder expr _ | .expr expr => expr.functions
  | .assign _ value _ => value.functions
  | .setProperty target _ value _ => target.functions ++ value.functions
  | .setIndex target key value _ => target.functions ++ key.functions ++ value.functions
  | .block body => Stmt.functionsAll body
  | .cond test yes no _ => test.functions ++ Stmt.functionsAll yes ++ Stmt.functionsAll no
  | .forIn _ _ _ collection filter body otherwise _ =>
    collection.functions ++ Expr.functionsOption filter ++ Stmt.functionsAll body ++
      Stmt.functionsOption otherwise
  | .ret value _ => Expr.functionsOption value

def Stmt.functionsAll : List Stmt → List FunctionDecl
  | [] => []
  | s :: rest => s.functions ++ Stmt.functionsAll rest

def Stmt.functionsOption : Option (List Stmt) → List FunctionDecl
  | none => []
  | some body => Stmt.functionsAll body

end

-- Folding one node drops parts of it and adds none.
section Fold

variable {e test : Expr} {yes no : List Stmt} {pos : Position}

theorem Expr.slots_optimize {P : Nat → Prop} (h : ∀ slot ∈ e.slots, P slot) :
    ∀ slot ∈ e.optimize.slots, P slot := by
  rcases e.optimize_cases with hstay | ⟨value, hvalue⟩
  · rwa [hstay]
  · rw [hvalue]
    exact List.forall_mem_nil _

theorem Expr.functions_optimize {P : FunctionDecl → Prop} (h : ∀ f ∈ e.functions, P f) :
    ∀ f ∈ e.optimize.functions, P f := by
  rcases e.optimize_cases with hstay | ⟨value, hvalue⟩
  · rwa [hstay]
  · rw [hvalue]
    exact List.forall_mem_nil _

theorem Stmt.slots_branch {P : Nat → Prop} (htest : ∀ slot ∈ test.slots, P slot)
    (hyes : ∀ slot ∈ slotsAll yes, P slot) (hno : ∀ slot ∈ slotsAll no, P slot) :
    ∀ slot ∈ (branch test yes no pos).slots, P slot := by
  rcases branch_cases test yes no pos with h | h | h <;> rw [h]
  · exact hyes
  · exact hno
  · exact List.forall_mem_append.mpr ⟨List.forall_mem_append.mpr ⟨htest, hyes⟩, hno⟩

theorem Stmt.functions_branch {P : FunctionDecl → Prop} (htest : ∀ f ∈ test.functions, P f)
    (hyes : ∀ f ∈ functionsAll yes, P f) (hno : ∀ f ∈ functionsAll no, P f) :
    ∀ f ∈ (branch test yes no pos).functions, P f := by
  rcases branch_cases test yes no pos with h | h | h <;> rw [h]
  · exact hyes
  · exact hno
  · exact List.forall_mem_append.mpr ⟨List.forall_mem_append.mpr ⟨htest, hyes⟩, hno⟩

end Fold

end Stencil
