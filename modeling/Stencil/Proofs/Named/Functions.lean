import Stencil.Proofs.Named.Erasure
import Stencil.Proofs.Named.Settle

namespace Stencil.Named

-- What a function is as an expression, without a place around it.
structure Function.Scoped (T : Terms) (f : Function Nat) : Prop where
  slots : List.range f.params.length ++ Stmt.bindersAll f.body = List.range f.frameSize
  body : Stmt.AllScoped (T.within f.frameSize) [.block, .parameters f.params] f.body

-- All functions of a tree are scoped, however deep they are.
mutual

theorem Expr.scoped_functions {T : Terms} {Γ : Context} {e : Expr Nat} (h : e.Scoped T Γ) :
    ∀ f ∈ e.functions, f.Scoped T := by
  cases e with
  | direct value pos => exact List.forall_mem_nil _
  | var name slot pos => exact List.forall_mem_nil _
  | iter slot pos => exact List.forall_mem_nil _
  | binary op left right pos =>
      exact List.forall_mem_append.mpr ⟨Expr.scoped_functions h.1, Expr.scoped_functions h.2⟩
  | unary op operand pos => exact Expr.scoped_functions (e := operand) h
  | and left right pos =>
      exact List.forall_mem_append.mpr ⟨Expr.scoped_functions h.1, Expr.scoped_functions h.2⟩
  | or left right pos =>
      exact List.forall_mem_append.mpr ⟨Expr.scoped_functions h.1, Expr.scoped_functions h.2⟩
  | property target key pos => exact Expr.scoped_functions (e := target) h
  | index target key pos =>
      exact List.forall_mem_append.mpr ⟨Expr.scoped_functions h.1, Expr.scoped_functions h.2⟩
  | call callee args pos =>
      exact List.forall_mem_append.mpr ⟨Expr.scoped_functions h.1, Expr.allScoped_functions h.2⟩
  | function params frameSize body pos =>
      refine List.forall_mem_cons.mpr ⟨⟨h.1, h.2⟩, fun f hf => ?_⟩
      have hscoped := Stmt.allScoped_functions h.2 f hf
      exact ⟨hscoped.slots, hscoped.body⟩
  | list items pos => exact Expr.allScoped_functions h

theorem Expr.allScoped_functions {T : Terms} {Γ : Context} {es : List (Expr Nat)}
    (h : Expr.AllScoped T Γ es) : ∀ f ∈ Expr.functionsAll es, f.Scoped T := by
  cases es with
  | nil => exact List.forall_mem_nil _
  | cons e rest =>
      exact List.forall_mem_append.mpr ⟨Expr.scoped_functions h.1, Expr.allScoped_functions h.2⟩

theorem Expr.optionScoped_functions {T : Terms} {Γ : Context} {e : Option (Expr Nat)}
    (h : Expr.OptionScoped T Γ e) : ∀ f ∈ Expr.functionsOption e, f.Scoped T := by
  cases e with
  | none => exact List.forall_mem_nil _
  | some e => exact Expr.scoped_functions (e := e) h

theorem Stmt.scoped_functions {T : Terms} {Γ : Context} {s : Stmt Nat} (h : s.Scoped T Γ) :
    ∀ f ∈ s.functions, f.Scoped T := by
  cases s with
  | text text pos => exact List.forall_mem_nil _
  | placeholder expr pos => exact Expr.scoped_functions (e := expr) h
  | expr expr => exact Expr.scoped_functions (e := expr) h
  | declare name slot value pos => exact Expr.optionScoped_functions h.1
  | assign name slot value pos => exact Expr.scoped_functions h.1
  | setProperty target key value pos =>
      exact List.forall_mem_append.mpr ⟨Expr.scoped_functions h.1, Expr.scoped_functions h.2⟩
  | setIndex target key value pos =>
      refine List.forall_mem_append.mpr ⟨?_, Expr.scoped_functions h.2.2⟩
      exact List.forall_mem_append.mpr ⟨Expr.scoped_functions h.1, Expr.scoped_functions h.2.1⟩
  | block body => exact Stmt.allScoped_functions h
  | ifThen test yes pos =>
      exact List.forall_mem_append.mpr ⟨Expr.scoped_functions h.1, Stmt.allScoped_functions h.2⟩
  | ifThenElse test yes no pos =>
      refine List.forall_mem_append.mpr ⟨?_, Stmt.allScoped_functions h.2.2⟩
      exact List.forall_mem_append.mpr ⟨Expr.scoped_functions h.1, Stmt.allScoped_functions h.2.1⟩
  | ifThenElseIf test yes next pos =>
      refine List.forall_mem_append.mpr ⟨?_, Stmt.scoped_functions h.2.2.1⟩
      exact List.forall_mem_append.mpr ⟨Expr.scoped_functions h.1, Stmt.allScoped_functions h.2.1⟩
  | forIn label number item iterSlot itemSlot collection filter body otherwise pos =>
      obtain ⟨hcollection, hfilter, -, -, -, -, hbody, hotherwise⟩ := h
      refine List.forall_mem_append.mpr ⟨?_, Stmt.optionScoped_functions hotherwise⟩
      refine List.forall_mem_append.mpr ⟨?_, Stmt.allScoped_functions hbody⟩
      exact List.forall_mem_append.mpr
        ⟨Expr.scoped_functions hcollection, Expr.optionScoped_functions hfilter⟩
  | ret value pos => exact Expr.optionScoped_functions (e := value) h
  | brk label pos => exact List.forall_mem_nil _
  | cont label pos => exact List.forall_mem_nil _

theorem Stmt.allScoped_functions {T : Terms} {Γ : Context} {ss : List (Stmt Nat)}
    (h : Stmt.AllScoped T Γ ss) : ∀ f ∈ Stmt.functionsAll ss, f.Scoped T := by
  cases ss with
  | nil => exact List.forall_mem_nil _
  | cons s rest =>
      exact List.forall_mem_append.mpr ⟨Stmt.scoped_functions h.1, Stmt.allScoped_functions h.2⟩

theorem Stmt.optionScoped_functions {T : Terms} {Γ : Context} {ss : Option (List (Stmt Nat))}
    (h : Stmt.OptionScoped T Γ ss) : ∀ f ∈ Stmt.functionsOption ss, f.Scoped T := by
  cases ss with
  | none => exact List.forall_mem_nil _
  | some body => exact Stmt.allScoped_functions h

end

def Function.settle (number : String → Nat) (f : Function Unit) : Function Nat :=
  ⟨f.params, f.params.length + (Stmt.bindersAll f.body).length,
    Stmt.settleAll number [.block, .parameters f.params] f.params.length f.body, f.pos⟩

-- What a function is as a value depends on nothing but its own names and the numbers of labels.
def Function.code (number : String → Nat) (f : Function Unit) : FunctionDecl :=
  (f.settle number).decl

namespace Function.Scoped

variable {T : Terms} {f : Function Nat}

theorem settle_names (h : f.Scoped T) : f.names.settle T.number = f := by
  obtain ⟨params, frameSize, body, pos⟩ := f
  have hself : (Expr.function params frameSize body pos).Scoped (T.within 0) [] := ⟨h.slots, h.body⟩
  have hsettle := Expr.settle_names rfl hself
  rw [Expr.names, Expr.settle, Expr.function.injEq] at hsettle
  obtain ⟨-, hsize, hbody, -⟩ := hsettle
  simp only [Function.names, Function.settle, Function.mk.injEq, true_and, and_true]
  exact ⟨hsize, hbody⟩

theorem code_names (h : f.Scoped T) : f.names.code T.number = f.decl :=
  congrArg Function.decl h.settle_names

end Function.Scoped

theorem agreeOn_of_scoped {T : Terms} {Γ : Context} {ss : List (Stmt Nat)}
    (h : Stmt.AllScoped T Γ ss) :
    AgreeOn Function.decl (Function.code T.number) (Stmt.functionsAll ss) :=
  fun f hf => (Stmt.allScoped_functions h f hf).code_names

end Stencil.Named
