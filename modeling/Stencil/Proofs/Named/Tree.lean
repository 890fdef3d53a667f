import Stencil.Proofs.Tree.Fold

namespace Stencil.Named

-- A template as it is written: variables, labels and parameters have their names. What resolution
-- adds to that, slots, label numbers and frame sizes, is of type `σ`: nothing in a tree that is not
-- resolved, numbers in one that is. Nothing that works for every `σ` can tell the two apart.
mutual

inductive Expr (σ : Type) where
  | direct (value : Literal) (pos : Position)
  | var (name : String) (slot : σ) (pos : Position)
  -- The iterator of the innermost loop.
  | iter (slot : σ) (pos : Position)
  | binary (op : BinaryOp) (left right : Expr σ) (pos : Position)
  | unary (op : UnaryOp) (operand : Expr σ) (pos : Position)
  | and (left right : Expr σ) (pos : Position)
  | or (left right : Expr σ) (pos : Position)
  | property (target : Expr σ) (key : String) (pos : Position)
  | index (target key : Expr σ) (pos : Position)
  | call (callee : Expr σ) (args : List (Expr σ)) (pos : Position)
  | function (params : List String) (frameSize : σ) (body : List (Stmt σ)) (pos : Position)
  | list (items : List (Expr σ)) (pos : Position)

inductive Stmt (σ : Type) where
  | text (text : String) (pos : Position)
  | placeholder (expr : Expr σ) (pos : Position)
  | expr (expr : Expr σ)
  | declare (name : String) (slot : σ) (value : Option (Expr σ)) (pos : Position)
  | assign (name : String) (slot : σ) (value : Expr σ) (pos : Position)
  | setProperty (target : Expr σ) (key : String) (value : Expr σ) (pos : Position)
  | setIndex (target key value : Expr σ) (pos : Position)
  | block (body : List (Stmt σ))
  | ifThen (test : Expr σ) (yes : List (Stmt σ)) (pos : Position)
  | ifThenElse (test : Expr σ) (yes no : List (Stmt σ)) (pos : Position)
  | ifThenElseIf (test : Expr σ) (yes : List (Stmt σ)) (next : Stmt σ) (pos : Position)
  | forIn (label : Option String) (number : σ) (item : String) (iterSlot itemSlot : σ)
      (collection : Expr σ) (filter : Option (Expr σ)) (body : List (Stmt σ))
      (otherwise : Option (List (Stmt σ))) (pos : Position)
  | ret (value : Option (Expr σ)) (pos : Position)
  | brk (label : Option (String × σ)) (pos : Position)
  | cont (label : Option (String × σ)) (pos : Position)

end

-- A function expression on its own.
structure Function (σ : Type) where
  params : List String
  frameSize : σ
  body : List (Stmt σ)
  pos : Position

def Expr.pos {σ : Type} : Expr σ → Position
  | direct _ pos | var _ _ pos | iter _ pos | binary _ _ _ pos | unary _ _ pos | and _ _ pos
  | or _ _ pos | property _ _ pos | index _ _ pos | call _ _ pos | function _ _ _ pos
  | list _ pos => pos

section Names

variable {σ : Type}

-- Forgets what resolution added.
mutual

def Expr.names : Expr σ → Expr Unit
  | .direct value pos => .direct value pos
  | .var name _ pos => .var name () pos
  | .iter _ pos => .iter () pos
  | .binary op left right pos => .binary op left.names right.names pos
  | .unary op operand pos => .unary op operand.names pos
  | .and left right pos => .and left.names right.names pos
  | .or left right pos => .or left.names right.names pos
  | .property target key pos => .property target.names key pos
  | .index target key pos => .index target.names key.names pos
  | .call callee args pos => .call callee.names (Expr.namesAll args) pos
  | .function params _ body pos => .function params () (Stmt.namesAll body) pos
  | .list items pos => .list (Expr.namesAll items) pos

def Expr.namesAll : List (Expr σ) → List (Expr Unit)
  | [] => []
  | e :: rest => e.names :: Expr.namesAll rest

def Expr.namesOption : Option (Expr σ) → Option (Expr Unit)
  | none => none
  | some e => some e.names

def Stmt.names : Stmt σ → Stmt Unit
  | .text text pos => .text text pos
  | .placeholder expr pos => .placeholder expr.names pos
  | .expr expr => .expr expr.names
  | .declare name _ value pos => .declare name () (Expr.namesOption value) pos
  | .assign name _ value pos => .assign name () value.names pos
  | .setProperty target key value pos => .setProperty target.names key value.names pos
  | .setIndex target key value pos => .setIndex target.names key.names value.names pos
  | .block body => .block (Stmt.namesAll body)
  | .ifThen test yes pos => .ifThen test.names (Stmt.namesAll yes) pos
  | .ifThenElse test yes no pos =>
    .ifThenElse test.names (Stmt.namesAll yes) (Stmt.namesAll no) pos
  | .ifThenElseIf test yes next pos =>
    .ifThenElseIf test.names (Stmt.namesAll yes) next.names pos
  | .forIn label _ item _ _ collection filter body otherwise pos =>
    .forIn label () item () () collection.names (Expr.namesOption filter) (Stmt.namesAll body)
      (Stmt.namesOption otherwise) pos
  | .ret value pos => .ret (Expr.namesOption value) pos
  | .brk label pos => .brk (label.map fun l => (l.1, ())) pos
  | .cont label pos => .cont (label.map fun l => (l.1, ())) pos

def Stmt.namesAll : List (Stmt σ) → List (Stmt Unit)
  | [] => []
  | s :: rest => s.names :: Stmt.namesAll rest

def Stmt.namesOption : Option (List (Stmt σ)) → Option (List (Stmt Unit))
  | none => none
  | some body => some (Stmt.namesAll body)

end

theorem Expr.namesAll_eq_map (es : List (Expr σ)) : namesAll es = es.map names := by
  induction es with
  | nil => rfl
  | cons e rest ih => rw [namesAll, ih, List.map_cons]

theorem Stmt.namesAll_eq_map (ss : List (Stmt σ)) : namesAll ss = ss.map names := by
  induction ss with
  | nil => rfl
  | cons s rest ih => rw [namesAll, ih, List.map_cons]

end Names

-- Forgets the names: the tree that runs on slots.
mutual

def Expr.code : Expr Nat → Stencil.Expr
  | .direct value pos => .direct value pos
  | .var _ slot pos => .var slot pos
  | .iter slot pos => .var slot pos
  | .binary op left right pos => .binary op left.code right.code pos
  | .unary op operand pos => .unary op operand.code pos
  | .and left right pos => .and left.code right.code pos
  | .or left right pos => .or left.code right.code pos
  | .property target key pos => .property target.code key pos
  | .index target key pos => .index target.code key.code pos
  | .call callee args pos => .call callee.code (Expr.codeAll args) pos
  | .function params frameSize body pos =>
    .function params.length frameSize (Stmt.codeAll body) pos
  | .list items pos => .list (Expr.codeAll items) pos

def Expr.codeAll : List (Expr Nat) → List Stencil.Expr
  | [] => []
  | e :: rest => e.code :: Expr.codeAll rest

def Expr.codeOption : Option (Expr Nat) → Option Stencil.Expr
  | none => none
  | some e => some e.code

def Stmt.code : Stmt Nat → Stencil.Stmt
  | .text text pos => .text text pos
  | .placeholder expr pos => .placeholder expr.code pos
  | .expr expr => .expr expr.code
  | .declare _ slot value pos =>
    .assign slot ((Expr.codeOption value).getD (.direct .null pos)) pos
  | .assign _ slot value pos => .assign slot value.code pos
  | .setProperty target key value pos => .setProperty target.code key value.code pos
  | .setIndex target key value pos => .setIndex target.code key.code value.code pos
  | .block body => .block (Stmt.codeAll body)
  | .ifThen test yes pos => .cond test.code (Stmt.codeAll yes) [] pos
  | .ifThenElse test yes no pos => .cond test.code (Stmt.codeAll yes) (Stmt.codeAll no) pos
  | .ifThenElseIf test yes next pos => .cond test.code (Stmt.codeAll yes) [next.code] pos
  | .forIn _ number _ iterSlot itemSlot collection filter body otherwise pos =>
    .forIn number iterSlot itemSlot collection.code (Expr.codeOption filter) (Stmt.codeAll body)
      (Stmt.codeOption otherwise) pos
  | .ret value pos => .ret (Expr.codeOption value) pos
  | .brk label pos => .brk (label.map Prod.snd) pos
  | .cont label pos => .cont (label.map Prod.snd) pos

def Stmt.codeAll : List (Stmt Nat) → List Stencil.Stmt
  | [] => []
  | s :: rest => s.code :: Stmt.codeAll rest

def Stmt.codeOption : Option (List (Stmt Nat)) → Option (List Stencil.Stmt)
  | none => none
  | some body => some (Stmt.codeAll body)

end

theorem Expr.codeAll_eq_map (es : List (Expr Nat)) : codeAll es = es.map code := by
  induction es with
  | nil => rfl
  | cons e rest ih => rw [codeAll, ih, List.map_cons]

theorem Stmt.codeAll_eq_map (ss : List (Stmt Nat)) : codeAll ss = ss.map code := by
  induction ss with
  | nil => rfl
  | cons s rest ih => rw [codeAll, ih, List.map_cons]

theorem Expr.pos_code (e : Expr Nat) : e.code.pos = e.pos := by cases e <;> rfl

-- What a function is as a value: its code with everything folded.
def Function.decl (f : Function Nat) : FunctionDecl :=
  ⟨f.params.length, f.frameSize, Stencil.Stmt.foldAll (Stmt.codeAll f.body), f.pos⟩

-- The functions written in a tree, those inside other functions included.
section Functions

variable {σ : Type}

mutual

def Expr.functions : Expr σ → List (Function σ)
  | .direct _ _ | .var _ _ _ | .iter _ _ => []
  | .binary _ left right _ | .and left right _ | .or left right _ =>
    left.functions ++ right.functions
  | .unary _ operand _ => operand.functions
  | .property target _ _ => target.functions
  | .index target key _ => target.functions ++ key.functions
  | .call callee args _ => callee.functions ++ Expr.functionsAll args
  | .function params frameSize body pos =>
    ⟨params, frameSize, body, pos⟩ :: Stmt.functionsAll body
  | .list items _ => Expr.functionsAll items

def Expr.functionsAll : List (Expr σ) → List (Function σ)
  | [] => []
  | e :: rest => e.functions ++ Expr.functionsAll rest

def Expr.functionsOption : Option (Expr σ) → List (Function σ)
  | none => []
  | some e => e.functions

def Stmt.functions : Stmt σ → List (Function σ)
  | .text _ _ | .brk _ _ | .cont _ _ => []
  | .placeholder expr _ | .expr expr => expr.functions
  | .declare _ _ value _ | .ret value _ => Expr.functionsOption value
  | .assign _ _ value _ => value.functions
  | .setProperty target _ value _ => target.functions ++ value.functions
  | .setIndex target key value _ => target.functions ++ key.functions ++ value.functions
  | .block body => Stmt.functionsAll body
  | .ifThen test yes _ => test.functions ++ Stmt.functionsAll yes
  | .ifThenElse test yes no _ =>
    test.functions ++ Stmt.functionsAll yes ++ Stmt.functionsAll no
  | .ifThenElseIf test yes next _ => test.functions ++ Stmt.functionsAll yes ++ next.functions
  | .forIn _ _ _ _ _ collection filter body otherwise _ =>
    collection.functions ++ Expr.functionsOption filter ++ Stmt.functionsAll body ++
      Stmt.functionsOption otherwise

def Stmt.functionsAll : List (Stmt σ) → List (Function σ)
  | [] => []
  | s :: rest => s.functions ++ Stmt.functionsAll rest

def Stmt.functionsOption : Option (List (Stmt σ)) → List (Function σ)
  | none => []
  | some body => Stmt.functionsAll body

end

end Functions

end Stencil.Named
