import Stencil.Resolve.Strategy

namespace Stencil

open Resolve

-- Code in which the status of iterators is known: what reads it is replaced by a literal. The
-- iterators are those in slots of the frame, so functions stay as they are.
abbrev KnownStatus := Nat → Option (LoopStatus → Literal)

namespace KnownStatus

def nothing : KnownStatus := fun _ => none

-- What a read of a property gives, if that is known.
def read? (known : KnownStatus) (target : Expr) (key : String) : Option Literal :=
  match target with
  | .var slot _ => (known slot).bind fun status => (LoopStatus.ofName? key).map status
  | _ => none

end KnownStatus

-- The name of a property that is written between brackets.
def Expr.name? : Expr → Option String
  | .direct (.str name) _ => some name
  | _ => none

theorem Expr.name?_eq_some {e : Expr} {name : String} (h : e.name? = some name) :
    ∃ pos, e = .direct (.str name) pos := by
  unfold Expr.name? at h
  split at h
  · exact ⟨_, by rw [Option.some.inj h]⟩
  · cases h

-- What a read of a known status is: the iterator of a slot, and a name.
theorem KnownStatus.exists_of_read? {known : KnownStatus} {target : Expr} {key : String}
    {l : Literal} (h : known.read? target key = some l) :
    ∃ slot pos status s, target = .var slot pos ∧ known slot = some status ∧
      LoopStatus.ofName? key = some s ∧ l = status s := by
  cases target with
  | var slot pos =>
      obtain ⟨status, hstatus, hkey⟩ := Option.bind_eq_some_iff.mp h
      obtain ⟨s, hs, rfl⟩ := Option.map_eq_some_iff.mp hkey
      exact ⟨slot, pos, status, s, rfl, hstatus, hs, rfl⟩
  | _ => cases h

mutual

def Expr.knowing (known : KnownStatus) : Expr → Expr
  | .direct value pos => .direct value pos
  | .var slot pos => .var slot pos
  | .binary op left right pos => .binary op (left.knowing known) (right.knowing known) pos
  | .unary op operand pos => .unary op (operand.knowing known) pos
  | .and left right pos => .and (left.knowing known) (right.knowing known) pos
  | .or left right pos => .or (left.knowing known) (right.knowing known) pos
  | .property target key pos =>
    match known.read? target key with
    | some value => .direct value pos
    | none => .property (target.knowing known) key pos
  | .index target key pos =>
    match key.name?.bind (known.read? target) with
    | some value => .direct value pos
    | none => .index (target.knowing known) (key.knowing known) pos
  | .call callee args pos => .call (callee.knowing known) (Expr.knowingAll known args) pos
  | .function arity frameSize body pos => .function arity frameSize body pos
  | .list items pos => .list (Expr.knowingAll known items) pos

def Expr.knowingAll (known : KnownStatus) : List Expr → List Expr
  | [] => []
  | e :: rest => e.knowing known :: Expr.knowingAll known rest

end

def Expr.knowingOption (known : KnownStatus) : Option Expr → Option Expr
  | none => none
  | some e => some (e.knowing known)

mutual

def Stmt.knowing (known : KnownStatus) : Stmt → Stmt
  | .text s pos => .text s pos
  | .placeholder e pos => .placeholder (e.knowing known) pos
  | .expr e => .expr (e.knowing known)
  | .assign slot value pos => .assign slot (value.knowing known) pos
  | .setProperty target key value pos =>
    .setProperty (target.knowing known) key (value.knowing known) pos
  | .setIndex target key value pos =>
    .setIndex (target.knowing known) (key.knowing known) (value.knowing known) pos
  | .block body => .block (Stmt.knowingAll known body)
  | .cond test yes no pos =>
    .cond (test.knowing known) (Stmt.knowingAll known yes) (Stmt.knowingAll known no) pos
  | .forIn label iterSlot itemSlot collection filter body otherwise pos =>
    .forIn label iterSlot itemSlot (collection.knowing known) (Expr.knowingOption known filter)
      (Stmt.knowingAll known body) (Stmt.knowingOption known otherwise) pos
  | .ret value pos => .ret (Expr.knowingOption known value) pos
  | .brk label pos => .brk label pos
  | .cont label pos => .cont label pos

def Stmt.knowingAll (known : KnownStatus) : List Stmt → List Stmt
  | [] => []
  | s :: rest => s.knowing known :: Stmt.knowingAll known rest

def Stmt.knowingOption (known : KnownStatus) : Option (List Stmt) → Option (List Stmt)
  | none => none
  | some body => some (Stmt.knowingAll known body)

end

theorem Expr.pos_knowing (known : KnownStatus) (e : Expr) : (e.knowing known).pos = e.pos := by
  cases e with
  | property target key pos =>
      simp only [knowing]
      split <;> rfl
  | index target key pos =>
      simp only [knowing]
      split <;> rfl
  | _ => rfl

section Nothing

open KnownStatus

theorem KnownStatus.read?_nothing (target : Expr) (key : String) :
    nothing.read? target key = none := by
  cases target <;> rfl

-- Where nothing is known the code stays as it is.
mutual

theorem Expr.knowing_nothing (e : Expr) : e.knowing nothing = e := by
  cases e with
  | direct value pos => rfl
  | var slot pos => rfl
  | binary op left right pos =>
      rw [knowing, Expr.knowing_nothing left, Expr.knowing_nothing right]
  | unary op operand pos => rw [knowing, Expr.knowing_nothing operand]
  | and left right pos => rw [knowing, Expr.knowing_nothing left, Expr.knowing_nothing right]
  | or left right pos => rw [knowing, Expr.knowing_nothing left, Expr.knowing_nothing right]
  | property target key pos =>
      simp only [knowing, read?_nothing]
      rw [Expr.knowing_nothing target]
  | index target key pos =>
      have hread : key.name?.bind (nothing.read? target) = none :=
        Option.bind_eq_none_iff.mpr fun name _ => read?_nothing target name
      simp only [knowing, hread]
      rw [Expr.knowing_nothing target, Expr.knowing_nothing key]
  | call callee args pos => rw [knowing, Expr.knowing_nothing callee, Expr.knowingAll_nothing args]
  | function arity frameSize body pos => rfl
  | list items pos => rw [knowing, Expr.knowingAll_nothing items]

theorem Expr.knowingAll_nothing (es : List Expr) : knowingAll nothing es = es := by
  cases es with
  | nil => rfl
  | cons e rest => rw [knowingAll, Expr.knowing_nothing e, Expr.knowingAll_nothing rest]

end

theorem Expr.knowingOption_nothing (e : Option Expr) : knowingOption nothing e = e := by
  cases e with
  | none => rfl
  | some e => rw [knowingOption, Expr.knowing_nothing]

mutual

theorem Stmt.knowing_nothing (s : Stmt) : s.knowing nothing = s := by
  cases s with
  | text s pos => rfl
  | placeholder e pos => rw [knowing, Expr.knowing_nothing]
  | expr e => rw [knowing, Expr.knowing_nothing]
  | assign slot value pos => rw [knowing, Expr.knowing_nothing]
  | setProperty target key value pos =>
      rw [knowing, Expr.knowing_nothing target, Expr.knowing_nothing value]
  | setIndex target key value pos =>
      rw [knowing, Expr.knowing_nothing target, Expr.knowing_nothing key,
        Expr.knowing_nothing value]
  | block body => rw [knowing, Stmt.knowingAll_nothing body]
  | cond test yes no pos =>
      rw [knowing, Expr.knowing_nothing, Stmt.knowingAll_nothing yes, Stmt.knowingAll_nothing no]
  | forIn label iterSlot itemSlot collection filter body otherwise pos =>
      rw [knowing, Expr.knowing_nothing, Expr.knowingOption_nothing,
        Stmt.knowingAll_nothing body, Stmt.knowingOption_nothing otherwise]
  | ret value pos => rw [knowing, Expr.knowingOption_nothing]
  | brk label pos => rfl
  | cont label pos => rfl

theorem Stmt.knowingAll_nothing (ss : List Stmt) : knowingAll nothing ss = ss := by
  cases ss with
  | nil => rfl
  | cons s rest => rw [knowingAll, Stmt.knowing_nothing s, Stmt.knowingAll_nothing rest]

theorem Stmt.knowingOption_nothing (body : Option (List Stmt)) :
    knowingOption nothing body = body := by
  cases body with
  | none => rfl
  | some ss => rw [knowingOption, Stmt.knowingAll_nothing ss]

end

end Nothing

end Stencil
