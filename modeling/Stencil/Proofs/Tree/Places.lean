import Stencil.Proofs.Tree.Fold
import Stencil.Tree.Fold

namespace Stencil

-- All places that are noted in a tree, those in the bodies of its functions included.
mutual

def Expr.places : Expr → List Position
  | .direct _ pos | .var _ pos => [pos]
  | .binary _ left right pos | .and left right pos | .or left right pos =>
    pos :: (left.places ++ right.places)
  | .unary _ operand pos => pos :: operand.places
  | .property target _ pos => pos :: target.places
  | .index target key pos => pos :: (target.places ++ key.places)
  | .call callee args pos => pos :: (callee.places ++ Expr.placesAll args)
  | .function _ _ body pos => pos :: Stmt.placesAll body
  | .list items pos => pos :: Expr.placesAll items

def Expr.placesAll : List Expr → List Position
  | [] => []
  | e :: rest => e.places ++ Expr.placesAll rest

def Expr.placesOption : Option Expr → List Position
  | none => []
  | some e => e.places

def Stmt.places : Stmt → List Position
  | .text _ pos | .brk _ pos | .cont _ pos => [pos]
  | .placeholder expr pos => pos :: expr.places
  | .expr expr => expr.places
  | .assign _ value pos => pos :: value.places
  | .setProperty target _ value pos => pos :: (target.places ++ value.places)
  | .setIndex target key value pos => pos :: (target.places ++ key.places ++ value.places)
  | .block body => Stmt.placesAll body
  | .cond test yes no pos => pos :: (test.places ++ Stmt.placesAll yes ++ Stmt.placesAll no)
  | .forIn _ _ _ collection filter body otherwise pos =>
    pos :: (collection.places ++ Expr.placesOption filter ++ Stmt.placesAll body ++
      Stmt.placesOption otherwise)
  | .ret value pos => pos :: Expr.placesOption value

def Stmt.placesAll : List Stmt → List Position
  | [] => []
  | s :: rest => s.places ++ Stmt.placesAll rest

def Stmt.placesOption : Option (List Stmt) → List Position
  | none => []
  | some body => Stmt.placesAll body

end

def FunctionDecl.places (f : FunctionDecl) : List Position := f.pos :: Stmt.placesAll f.body

theorem Expr.pos_mem_places (e : Expr) : e.pos ∈ e.places := by
  cases e <;> simp [pos, places]

theorem Expr.placesAll_append (es more : List Expr) :
    placesAll (es ++ more) = placesAll es ++ placesAll more := by
  induction es with
  | nil => rfl
  | cons e rest ih => rw [List.cons_append, placesAll, ih, placesAll, List.append_assoc]

theorem Stmt.placesAll_append (ss more : List Stmt) :
    placesAll (ss ++ more) = placesAll ss ++ placesAll more := by
  induction ss with
  | nil => rfl
  | cons s rest ih => rw [List.cons_append, placesAll, ih, placesAll, List.append_assoc]

-- Folding one node keeps to the places that were there.
section Fold

variable {P : Position → Prop} {e test : Expr} {yes no : List Stmt} {pos : Position}

theorem Expr.places_optimize (h : ∀ p ∈ e.places, P p) : ∀ p ∈ e.optimize.places, P p := by
  rcases e.optimize_cases with hstay | ⟨value, hvalue⟩
  · rwa [hstay]
  · rw [hvalue]
    intro p hp
    obtain rfl := List.mem_singleton.mp hp
    exact h _ e.pos_mem_places

theorem Stmt.places_branch (h : ∀ p ∈ (Stmt.cond test yes no pos).places, P p) :
    ∀ p ∈ (branch test yes no pos).places, P p := by
  simp only [places, List.forall_mem_cons, List.forall_mem_append] at h
  obtain ⟨hpos, ⟨htest, hyes⟩, hno⟩ := h
  rcases branch_cases test yes no pos with hcase | hcase | hcase <;> rw [hcase]
  · exact hyes
  · exact hno
  · simp only [places, List.forall_mem_cons, List.forall_mem_append]
    exact ⟨hpos, ⟨htest, hyes⟩, hno⟩

end Fold

-- A tree without the places of its nodes.
mutual

def Expr.unplaced : Expr → Expr
  | .direct value _ => .direct value ⟨0, 0⟩
  | .var slot _ => .var slot ⟨0, 0⟩
  | .binary op left right _ => .binary op left.unplaced right.unplaced ⟨0, 0⟩
  | .unary op operand _ => .unary op operand.unplaced ⟨0, 0⟩
  | .and left right _ => .and left.unplaced right.unplaced ⟨0, 0⟩
  | .or left right _ => .or left.unplaced right.unplaced ⟨0, 0⟩
  | .property target key _ => .property target.unplaced key ⟨0, 0⟩
  | .index target key _ => .index target.unplaced key.unplaced ⟨0, 0⟩
  | .call callee args _ => .call callee.unplaced (Expr.unplacedAll args) ⟨0, 0⟩
  | .function arity frameSize body _ => .function arity frameSize (Stmt.unplacedAll body) ⟨0, 0⟩
  | .list items _ => .list (Expr.unplacedAll items) ⟨0, 0⟩

def Expr.unplacedAll : List Expr → List Expr
  | [] => []
  | e :: rest => e.unplaced :: Expr.unplacedAll rest

def Expr.unplacedOption : Option Expr → Option Expr
  | none => none
  | some e => some e.unplaced

def Stmt.unplaced : Stmt → Stmt
  | .text text _ => .text text ⟨0, 0⟩
  | .placeholder expr _ => .placeholder expr.unplaced ⟨0, 0⟩
  | .expr expr => .expr expr.unplaced
  | .assign slot value _ => .assign slot value.unplaced ⟨0, 0⟩
  | .setProperty target key value _ => .setProperty target.unplaced key value.unplaced ⟨0, 0⟩
  | .setIndex target key value _ =>
    .setIndex target.unplaced key.unplaced value.unplaced ⟨0, 0⟩
  | .block body => .block (Stmt.unplacedAll body)
  | .cond test yes no _ =>
    .cond test.unplaced (Stmt.unplacedAll yes) (Stmt.unplacedAll no) ⟨0, 0⟩
  | .forIn label iterSlot itemSlot collection filter body otherwise _ =>
    .forIn label iterSlot itemSlot collection.unplaced (Expr.unplacedOption filter)
      (Stmt.unplacedAll body) (Stmt.unplacedOption otherwise) ⟨0, 0⟩
  | .ret value _ => .ret (Expr.unplacedOption value) ⟨0, 0⟩
  | .brk label _ => .brk label ⟨0, 0⟩
  | .cont label _ => .cont label ⟨0, 0⟩

def Stmt.unplacedAll : List Stmt → List Stmt
  | [] => []
  | s :: rest => s.unplaced :: Stmt.unplacedAll rest

def Stmt.unplacedOption : Option (List Stmt) → Option (List Stmt)
  | none => none
  | some body => some (Stmt.unplacedAll body)

end

namespace Expr

theorem unplacedAll_eq_map (es : List Expr) : unplacedAll es = es.map unplaced := by
  induction es with
  | nil => rfl
  | cons e rest ih => rw [unplacedAll, ih, List.map_cons]

theorem constant?_unplaced (e : Expr) : e.unplaced.constant? = e.constant? := by
  cases e <;> rfl

-- Folding does not depend on places.
theorem optimize_unplaced (e : Expr) : e.optimize.unplaced = e.unplaced.optimize := by
  cases e with
  | binary op left right pos =>
      simp only [unplaced, optimize, constant?_unplaced]
      cases left.constant? with
      | none => rfl
      | some a =>
          cases right.constant? with
          | none => rfl
          | some b => cases hfold : foldBinary op a b <;> simp [hfold, unplaced]
  | unary op operand pos =>
      simp only [unplaced, optimize, constant?_unplaced]
      cases operand.constant? with
      | none => rfl
      | some a => cases hfold : foldUnary op a <;> simp [hfold, unplaced]
  | and left right pos =>
      simp only [unplaced, optimize, constant?_unplaced]
      cases left.constant?.map Literal.isTruthy with
      | none => rfl
      | some b => cases b <;> cases right.constant? <;> rfl
  | or left right pos =>
      simp only [unplaced, optimize, constant?_unplaced]
      cases left.constant?.map Literal.isTruthy with
      | none => rfl
      | some b => cases b <;> cases right.constant? <;> rfl
  | _ => rfl

end Expr

end Stencil
