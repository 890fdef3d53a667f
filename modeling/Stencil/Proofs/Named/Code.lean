import Stencil.Proofs.Named.Scoping
import Stencil.Proofs.Tree.Walk

namespace Stencil.Named

-- The functions of a compiled tree are compiled functions.
mutual

theorem Expr.functions_code {P : FunctionDecl → Prop} {e : Expr Nat}
    (h : ∀ f ∈ e.functions, P f.decl) : ∀ d ∈ e.code.fold.functions, P d := by
  cases e with
  | direct value pos => exact List.forall_mem_nil _
  | var name slot pos => exact List.forall_mem_nil _
  | iter slot pos => exact List.forall_mem_nil _
  | binary op left right pos =>
      obtain ⟨hleft, hright⟩ := List.forall_mem_append.mp h
      exact Stencil.Expr.functions_optimize
        (List.forall_mem_append.mpr ⟨Expr.functions_code hleft, Expr.functions_code hright⟩)
  | unary op operand pos =>
      exact Stencil.Expr.functions_optimize (Expr.functions_code (e := operand) h)
  | and left right pos =>
      obtain ⟨hleft, hright⟩ := List.forall_mem_append.mp h
      exact Stencil.Expr.functions_optimize
        (List.forall_mem_append.mpr ⟨Expr.functions_code hleft, Expr.functions_code hright⟩)
  | or left right pos =>
      obtain ⟨hleft, hright⟩ := List.forall_mem_append.mp h
      exact Stencil.Expr.functions_optimize
        (List.forall_mem_append.mpr ⟨Expr.functions_code hleft, Expr.functions_code hright⟩)
  | property target key pos => exact Expr.functions_code (e := target) h
  | index target key pos =>
      obtain ⟨htarget, hkey⟩ := List.forall_mem_append.mp h
      exact List.forall_mem_append.mpr ⟨Expr.functions_code htarget, Expr.functions_code hkey⟩
  | call callee args pos =>
      obtain ⟨hcallee, hargs⟩ := List.forall_mem_append.mp h
      exact List.forall_mem_append.mpr ⟨Expr.functions_code hcallee, Expr.functionsAll_code hargs⟩
  | function params frameSize body pos =>
      obtain ⟨hself, hbody⟩ := List.forall_mem_cons.mp h
      exact List.forall_mem_cons.mpr ⟨hself, Stmt.functionsAll_code hbody⟩
  | list items pos => exact Expr.functionsAll_code h

theorem Expr.functionsAll_code {P : FunctionDecl → Prop} {es : List (Expr Nat)}
    (h : ∀ f ∈ Expr.functionsAll es, P f.decl) :
    ∀ d ∈ Stencil.Expr.functionsAll (Stencil.Expr.foldAll (Expr.codeAll es)), P d := by
  cases es with
  | nil => exact List.forall_mem_nil _
  | cons e rest =>
      obtain ⟨hfirst, hrest⟩ := List.forall_mem_append.mp h
      exact List.forall_mem_append.mpr ⟨Expr.functions_code hfirst, Expr.functionsAll_code hrest⟩

theorem Expr.functionsOption_code {P : FunctionDecl → Prop} {e : Option (Expr Nat)}
    (h : ∀ f ∈ Expr.functionsOption e, P f.decl) :
    ∀ d ∈ Stencil.Expr.functionsOption (Stencil.Expr.foldOption (Expr.codeOption e)), P d := by
  cases e with
  | none => exact List.forall_mem_nil _
  | some e => exact Expr.functions_code (e := e) h

theorem Stmt.functions_code {P : FunctionDecl → Prop} {s : Stmt Nat}
    (h : ∀ f ∈ s.functions, P f.decl) : ∀ d ∈ s.code.fold.functions, P d := by
  cases s with
  | text text pos => exact List.forall_mem_nil _
  | placeholder expr pos => exact Expr.functions_code (e := expr) h
  | expr expr => exact Expr.functions_code (e := expr) h
  | declare name slot value pos =>
      cases value with
      | none => exact List.forall_mem_nil _
      | some value => exact Expr.functions_code (e := value) h
  | assign name slot value pos => exact Expr.functions_code (e := value) h
  | setProperty target key value pos =>
      obtain ⟨htarget, hvalue⟩ := List.forall_mem_append.mp h
      exact List.forall_mem_append.mpr ⟨Expr.functions_code htarget, Expr.functions_code hvalue⟩
  | setIndex target key value pos =>
      obtain ⟨hplace, hvalue⟩ := List.forall_mem_append.mp h
      obtain ⟨htarget, hkey⟩ := List.forall_mem_append.mp hplace
      refine List.forall_mem_append.mpr ⟨?_, Expr.functions_code hvalue⟩
      exact List.forall_mem_append.mpr ⟨Expr.functions_code htarget, Expr.functions_code hkey⟩
  | block body => exact Stmt.functionsAll_code h
  | ifThen test yes pos =>
      obtain ⟨htest, hyes⟩ := List.forall_mem_append.mp h
      exact Stencil.Stmt.functions_branch (Expr.functions_code htest)
        (Stmt.functionsAll_code hyes) (List.forall_mem_nil _)
  | ifThenElse test yes no pos =>
      obtain ⟨hfirst, hno⟩ := List.forall_mem_append.mp h
      obtain ⟨htest, hyes⟩ := List.forall_mem_append.mp hfirst
      exact Stencil.Stmt.functions_branch (Expr.functions_code htest)
        (Stmt.functionsAll_code hyes) (Stmt.functionsAll_code hno)
  | ifThenElseIf test yes next pos =>
      obtain ⟨hfirst, hnext⟩ := List.forall_mem_append.mp h
      obtain ⟨htest, hyes⟩ := List.forall_mem_append.mp hfirst
      refine Stencil.Stmt.functions_branch (Expr.functions_code htest)
        (Stmt.functionsAll_code hyes) ?_
      exact List.forall_mem_append.mpr ⟨Stmt.functions_code hnext, List.forall_mem_nil _⟩
  | forIn label number item iterSlot itemSlot collection filter body otherwise pos =>
      obtain ⟨hhead, hotherwise⟩ := List.forall_mem_append.mp h
      obtain ⟨hopen, hbody⟩ := List.forall_mem_append.mp hhead
      obtain ⟨hcollection, hfilter⟩ := List.forall_mem_append.mp hopen
      refine List.forall_mem_append.mpr ⟨?_, Stmt.functionsOption_code hotherwise⟩
      refine List.forall_mem_append.mpr ⟨?_, Stmt.functionsAll_code hbody⟩
      exact List.forall_mem_append.mpr
        ⟨Expr.functions_code hcollection, Expr.functionsOption_code hfilter⟩
  | ret value pos => exact Expr.functionsOption_code (e := value) h
  | brk label pos => exact List.forall_mem_nil _
  | cont label pos => exact List.forall_mem_nil _

theorem Stmt.functionsAll_code {P : FunctionDecl → Prop} {ss : List (Stmt Nat)}
    (h : ∀ f ∈ Stmt.functionsAll ss, P f.decl) :
    ∀ d ∈ Stencil.Stmt.functionsAll (Stencil.Stmt.foldAll (Stmt.codeAll ss)), P d := by
  cases ss with
  | nil => exact List.forall_mem_nil _
  | cons s rest =>
      obtain ⟨hfirst, hrest⟩ := List.forall_mem_append.mp h
      exact List.forall_mem_append.mpr ⟨Stmt.functions_code hfirst, Stmt.functionsAll_code hrest⟩

theorem Stmt.functionsOption_code {P : FunctionDecl → Prop} {ss : Option (List (Stmt Nat))}
    (h : ∀ f ∈ Stmt.functionsOption ss, P f.decl) :
    ∀ d ∈ Stencil.Stmt.functionsOption (Stencil.Stmt.foldOption (Stmt.codeOption ss)), P d := by
  cases ss with
  | none => exact List.forall_mem_nil _
  | some body => exact Stmt.functionsAll_code h

end

-- The slots that are known at a place are slots of the frame.
structure Terms.Covers (T : Terms) (Γ : Context) : Prop where
  slots : ∀ slot ∈ Γ.slots, slot < T.size
  params : ∀ b ∈ T.params, b.2 < T.size

namespace Terms.Covers

variable {T : Terms} {Γ : Context} {name : String} {slot : Nat}

theorem resolves (hT : T.Covers Γ) (h : T.Resolves Γ name slot) : slot < T.size := by
  rcases h with h | ⟨-, h⟩
  · obtain ⟨r, hr, hlookup⟩ := List.exists_of_findSome?_eq_some h
    obtain ⟨before, behind, hnames, -⟩ := List.lookup_eq_some_iff.mp hlookup
    refine hT.slots slot (List.mem_flatMap.mpr ⟨r, hr, List.mem_append_left _ ?_⟩)
    rw [hnames]
    simp
  · exact hT.params _ h

theorem iter (hT : T.Covers Γ) (h : Γ.loops.head?.map Loop.iterSlot = some slot) :
    slot < T.size := by
  obtain ⟨l, hl, rfl⟩ := Option.map_eq_some_iff.mp h
  obtain ⟨r, hr, hloop⟩ := List.mem_filterMap.mp (List.mem_of_head? hl)
  refine hT.slots _ (List.mem_flatMap.mpr ⟨r, hr, List.mem_append_right _ ?_⟩)
  rw [hloop]
  simp

theorem block (hT : T.Covers Γ) : T.Covers (.block :: Γ) := ⟨hT.slots, hT.params⟩

theorem loopHead (hT : T.Covers Γ) {label : Option String} {iterSlot itemSlot : Nat} {item : String}
    (hiter : iterSlot < T.size) (hitem : itemSlot < T.size) :
    T.Covers (.loopHead label iterSlot item itemSlot :: Γ) := by
  refine ⟨?_, hT.params⟩
  exact List.forall_mem_cons.mpr ⟨hitem, List.forall_mem_cons.mpr ⟨hiter, hT.slots⟩⟩

theorem after (hT : T.Covers Γ) {s : Stmt Nat} (h : s.Scoped T Γ) : T.Covers (s.after Γ) := by
  cases s with
  | declare name slot value pos =>
      cases Γ with
      | nil => exact hT
      | cons r rest => exact ⟨List.forall_mem_cons.mpr ⟨h.2.lt, hT.slots⟩, hT.params⟩
  | _ => exact hT

end Terms.Covers

-- A compiled tree uses slots of its frame only.
mutual

theorem Expr.slots_code {T : Terms} {Γ : Context} (hT : T.Covers Γ) {e : Expr Nat}
    (h : e.Scoped T Γ) : ∀ slot ∈ e.code.fold.slots, slot < T.size := by
  cases e with
  | direct value pos => exact List.forall_mem_nil _
  | var name slot pos => exact List.forall_mem_singleton.mpr (hT.resolves h)
  | iter slot pos => exact List.forall_mem_singleton.mpr (hT.iter h)
  | binary op left right pos =>
      exact Stencil.Expr.slots_optimize
        (List.forall_mem_append.mpr ⟨Expr.slots_code hT h.1, Expr.slots_code hT h.2⟩)
  | unary op operand pos =>
      exact Stencil.Expr.slots_optimize (Expr.slots_code (e := operand) hT h)
  | and left right pos =>
      exact Stencil.Expr.slots_optimize
        (List.forall_mem_append.mpr ⟨Expr.slots_code hT h.1, Expr.slots_code hT h.2⟩)
  | or left right pos =>
      exact Stencil.Expr.slots_optimize
        (List.forall_mem_append.mpr ⟨Expr.slots_code hT h.1, Expr.slots_code hT h.2⟩)
  | property target key pos => exact Expr.slots_code (e := target) hT h
  | index target key pos =>
      exact List.forall_mem_append.mpr ⟨Expr.slots_code hT h.1, Expr.slots_code hT h.2⟩
  | call callee args pos =>
      exact List.forall_mem_append.mpr ⟨Expr.slots_code hT h.1, Expr.slotsAll_code hT h.2⟩
  | function params frameSize body pos => exact List.forall_mem_nil _
  | list items pos => exact Expr.slotsAll_code hT h

theorem Expr.slotsAll_code {T : Terms} {Γ : Context} (hT : T.Covers Γ) {es : List (Expr Nat)}
    (h : Expr.AllScoped T Γ es) :
    ∀ slot ∈ Stencil.Expr.slotsAll (Stencil.Expr.foldAll (Expr.codeAll es)), slot < T.size := by
  cases es with
  | nil => exact List.forall_mem_nil _
  | cons e rest =>
      exact List.forall_mem_append.mpr ⟨Expr.slots_code hT h.1, Expr.slotsAll_code hT h.2⟩

end

theorem Expr.slotsOption_code {T : Terms} {Γ : Context} (hT : T.Covers Γ) {e : Option (Expr Nat)}
    (h : Expr.OptionScoped T Γ e) :
    ∀ slot ∈ Stencil.Expr.slotsOption (Stencil.Expr.foldOption (Expr.codeOption e)),
      slot < T.size := by
  cases e with
  | none => exact List.forall_mem_nil _
  | some e => exact Expr.slots_code (e := e) hT h

mutual

theorem Stmt.slots_code {T : Terms} {Γ : Context} (hT : T.Covers Γ) {s : Stmt Nat}
    (h : s.Scoped T Γ) : ∀ slot ∈ s.code.fold.slots, slot < T.size := by
  cases s with
  | text text pos => exact List.forall_mem_nil _
  | placeholder expr pos => exact Expr.slots_code (e := expr) hT h
  | expr expr => exact Expr.slots_code (e := expr) hT h
  | declare name slot value pos =>
      cases value with
      | none => exact List.forall_mem_cons.mpr ⟨h.2.lt, List.forall_mem_nil _⟩
      | some value =>
          exact List.forall_mem_cons.mpr ⟨h.2.lt, Expr.slots_code (e := value) hT h.1⟩
  | assign name slot value pos =>
      exact List.forall_mem_cons.mpr ⟨hT.resolves h.2, Expr.slots_code hT h.1⟩
  | setProperty target key value pos =>
      exact List.forall_mem_append.mpr ⟨Expr.slots_code hT h.1, Expr.slots_code hT h.2⟩
  | setIndex target key value pos =>
      refine List.forall_mem_append.mpr ⟨?_, Expr.slots_code hT h.2.2⟩
      exact List.forall_mem_append.mpr ⟨Expr.slots_code hT h.1, Expr.slots_code hT h.2.1⟩
  | block body => exact Stmt.slotsAll_code hT.block h
  | ifThen test yes pos =>
      exact Stencil.Stmt.slots_branch (Expr.slots_code hT h.1)
        (Stmt.slotsAll_code hT.block h.2) (List.forall_mem_nil _)
  | ifThenElse test yes no pos =>
      exact Stencil.Stmt.slots_branch (Expr.slots_code hT h.1)
        (Stmt.slotsAll_code hT.block h.2.1) (Stmt.slotsAll_code hT.block h.2.2)
  | ifThenElseIf test yes next pos =>
      refine Stencil.Stmt.slots_branch (Expr.slots_code hT h.1)
        (Stmt.slotsAll_code hT.block h.2.1) ?_
      exact List.forall_mem_append.mpr ⟨Stmt.slots_code hT h.2.2.1, List.forall_mem_nil _⟩
  | forIn label number item iterSlot itemSlot collection filter body otherwise pos =>
      obtain ⟨hcollection, hfilter, -, hiter, hitem, -, hbody, hotherwise⟩ := h
      refine List.forall_mem_cons.mpr ⟨hiter.lt, List.forall_mem_cons.mpr ⟨hitem.lt, ?_⟩⟩
      refine List.forall_mem_append.mpr ⟨?_, Stmt.slotsOption_code hT.block hotherwise⟩
      refine List.forall_mem_append.mpr
        ⟨?_, Stmt.slotsAll_code (hT.loopHead hiter.lt hitem.lt).block hbody⟩
      exact List.forall_mem_append.mpr
        ⟨Expr.slots_code hT hcollection, Expr.slotsOption_code hT hfilter⟩
  | ret value pos => exact Expr.slotsOption_code (e := value) hT h
  | brk label pos => exact List.forall_mem_nil _
  | cont label pos => exact List.forall_mem_nil _

theorem Stmt.slotsAll_code {T : Terms} {Γ : Context} (hT : T.Covers Γ) {ss : List (Stmt Nat)}
    (h : Stmt.AllScoped T Γ ss) :
    ∀ slot ∈ Stencil.Stmt.slotsAll (Stencil.Stmt.foldAll (Stmt.codeAll ss)), slot < T.size := by
  cases ss with
  | nil => exact List.forall_mem_nil _
  | cons s rest =>
      exact List.forall_mem_append.mpr
        ⟨Stmt.slots_code hT h.1, Stmt.slotsAll_code (hT.after h.1) h.2⟩

theorem Stmt.slotsOption_code {T : Terms} {Γ : Context} (hT : T.Covers Γ)
    {ss : Option (List (Stmt Nat))} (h : Stmt.OptionScoped T Γ ss) :
    ∀ slot ∈ Stencil.Stmt.slotsOption (Stencil.Stmt.foldOption (Stmt.codeOption ss)),
      slot < T.size := by
  cases ss with
  | none => exact List.forall_mem_nil _
  | some body => exact Stmt.slotsAll_code hT h

end

end Stencil.Named
