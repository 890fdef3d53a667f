import Stencil.Proofs.Named.Code
import Stencil.Proofs.Named.Functions
import Stencil.Proofs.Named.Program
import Stencil.Proofs.Run.Lexical

namespace Stencil

namespace Named

-- The numbers of the loops around a place.
def Terms.labels (T : Terms) (Γ : Context) : List Nat :=
  Γ.loops.map fun l => T.labelNumber l.label

theorem Terms.Jumps.hasTarget {T : Terms} {Γ : Context} {target : Option (String × Nat)}
    (h : T.Jumps Γ target) : HasTarget (T.labels Γ) (target.map Prod.snd) := by
  cases target with
  | none => exact mt List.map_eq_nil_iff.mp h
  | some target =>
      obtain ⟨label, number⟩ := target
      obtain ⟨rfl, l, hl, hlabel⟩ := h
      refine ⟨T.positive _, List.mem_map.mpr ⟨l, hl, ?_⟩⟩
      rw [hlabel]
      rfl

mutual

theorem Stmt.jumps_code {T : Terms} {Γ : Context} {s : Stmt Nat} (h : s.Scoped T Γ) :
    s.code.fold.JumpsWithin (T.labels Γ) := by
  cases s with
  | block body => exact Stmt.allJump_code h
  | ifThen test yes pos =>
      exact Stencil.Stmt.jumpsWithin_branch (Stmt.allJump_code h.2) trivial
  | ifThenElse test yes no pos =>
      exact Stencil.Stmt.jumpsWithin_branch (Stmt.allJump_code h.2.1) (Stmt.allJump_code h.2.2)
  | ifThenElseIf test yes next pos =>
      exact Stencil.Stmt.jumpsWithin_branch (Stmt.allJump_code h.2.1)
        ⟨Stmt.jumps_code h.2.2.1, trivial⟩
  | forIn label number item iterSlot itemSlot collection filter body otherwise pos =>
      obtain ⟨-, -, rfl, -, -, -, hbody, hotherwise⟩ := h
      refine ⟨Stmt.allJump_code hbody, ?_⟩
      cases otherwise with
      | none => trivial
      | some stmts => exact Stmt.allJump_code hotherwise
  | brk label pos => exact Terms.Jumps.hasTarget h
  | cont label pos => exact Terms.Jumps.hasTarget h
  | _ => trivial

-- Declarations leave the loops as they are.
theorem Stmt.allJump_code {T : Terms} {r : Region} {Γ : Context} {ss : List (Stmt Nat)}
    (h : Stmt.AllScoped T (r :: Γ) ss) :
    Stencil.Stmt.AllJumpWithin (T.labels (r :: Γ)) (Stencil.Stmt.foldAll (Stmt.codeAll ss)) := by
  cases ss with
  | nil => trivial
  | cons s rest =>
      obtain ⟨names, hafter⟩ := s.after_region r Γ
      have hrest := h.2
      rw [hafter] at hrest
      have hloops : T.labels (r :: Γ) = T.labels (⟨names, r.loop⟩ :: Γ) := by
        rw [Terms.labels, Terms.labels, Context.loops_cons, Context.loops_cons]
      refine ⟨Stmt.jumps_code h.1, ?_⟩
      rw [hloops]
      exact Stmt.allJump_code hrest

end

end Named

namespace Template

-- Jumps are well scoped in every template that compiles and in all its functions, and however a
-- statement ends, the running loop is the one it was before.
theorem jumps_well_scoped :
    (∀ (config : Config) (source : String),
      Compiles (fun t => JumpsSound t.root ∧ ∀ f ∈ Stmt.functionsAll t.root, JumpsSound f.body)
        (compile config source)) ∧
    ∀ (k : Linkage) (fuel : Nat) (s : Stmt) (a : Activation),
      (Run.execStmt k fuel s a).2.frame.indexer = a.frame.indexer := by
  refine ⟨fun config source => ?_, Run.indexer_execStmt⟩
  refine compiles_of_program fun p _ _ => ⟨jumpsSound (Named.Stmt.allJump_code p.inScope), ?_⟩
  refine Named.Stmt.functionsAll_code fun f hf => ?_
  have hscoped := Named.Stmt.allScoped_functions p.inScope f hf
  exact jumpsSound (Named.Stmt.allJump_code hscoped.body)

end Template

end Stencil
