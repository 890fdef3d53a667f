import Stencil.Proofs.Language.Naming
import Stencil.Proofs.Parser.Parting
import Stencil.Proofs.Template.CompileSafe

namespace Stencil

open Stencil.Parser

namespace Build

variable {looseVar : Bool} {h : Handle}

-- All that is done to the parameters is that further ones are found, and none are where all names
-- must be declared.
def Collects (looseVar : Bool) (m : BuildM α) : Prop :=
  ∀ d a d', m d = .ok (a, d') → d.params <:+ d'.params ∧ (looseVar = false → d'.params = d.params)

theorem collects_of_eq {m : BuildM α} (hm : ∀ d a d', m d = .ok (a, d') → d'.params = d.params) :
    Collects looseVar m := by
  intro d a d' he
  have heq := hm d a d' he
  exact ⟨heq ▸ List.suffix_refl _, fun _ => heq⟩

theorem collects_pure (a : α) : Collects looseVar (pure a) := by
  refine collects_of_eq fun d b d' he => ?_
  cases he
  rfl

theorem collects_fail (pos : Position) (fault : ParseFault) :
    Collects looseVar (fail pos fault : BuildM α) := by
  rintro d a d' ⟨⟩

theorem collects_get : Collects looseVar (get : BuildM Draft) := by
  refine collects_of_eq fun d b d' he => ?_
  cases he
  rfl

theorem collects_modifyScopes (change : Scopes → Scopes) :
    Collects looseVar (modifyScopes change) := by
  refine collects_of_eq fun d b d' he => ?_
  cases he
  rfl

theorem collects_bind {m : BuildM α} {f : α → BuildM β} (hm : Collects looseVar m)
    (hf : ∀ a, Collects looseVar (f a)) : Collects looseVar (m >>= f) := by
  intro d b d' he
  obtain ⟨a, d₁, hfirst, hrest⟩ := bind_eq_ok.mp he
  obtain ⟨hgrows, hsame⟩ := hm d a d₁ hfirst
  obtain ⟨hgrows', hsame'⟩ := hf a d₁ b d' hrest
  exact ⟨hgrows.trans hgrows', fun hstrict => (hsame' hstrict).trans (hsame hstrict)⟩

theorem collects_takeAs (expected : String) (select : Sem → Option α) (i : Nat) :
    Collects looseVar (takeAs expected select h i) := by
  refine collects_of_eq fun d a d' he => ?_
  rw [(takeAs_eq_ok he).2]

theorem collects_take {expected : String} {select : Sem → Option α} {i : Nat} {f : α → BuildM β}
    (hf : ∀ a, Collects looseVar (f a)) :
    Collects looseVar (takeAs expected select h i >>= f) :=
  collects_bind (collects_takeAs expected select i) hf

theorem collects_mapM {f : Nat → BuildM α} {at? : Option Nat}
    (hf : ∀ i, Collects looseVar (f i)) : Collects looseVar (at?.mapM f) := by
  cases at? with
  | none => exact collects_pure _
  | some i => exact collects_bind (hf i) fun _ => collects_pure _

theorem collects_declare (name : String) (pos : Position) :
    Collects looseVar (declare name pos) := by
  refine collects_of_eq fun d a d' he => ?_
  obtain ⟨-, -, rfl⟩ := declare_cases he
  rfl

theorem collects_declareAll (pos : Position) (names : List String) :
    Collects looseVar (declareAll pos names) := by
  induction names with
  | nil => exact collects_pure _
  | cons name rest ih => exact collects_bind (collects_declare name pos) fun _ => ih

theorem collects_resolve (folding : Bool) (name : String) (pos : Position) :
    Collects looseVar (resolve ⟨looseVar, folding⟩ name pos) := by
  intro d a d' he
  rcases resolve_cases he with ⟨-, rfl⟩ | ⟨-, hloose, -, -, rfl⟩
  · exact ⟨List.suffix_refl _, fun _ => rfl⟩
  · refine ⟨List.suffix_cons _ _, fun hstrict => ?_⟩
    rw [hstrict] at hloose
    cases hloose

theorem collects_innermostTarget (keyword : String) :
    Collects looseVar (innermostTarget keyword h) := by
  refine collects_bind collects_get fun d => ?_
  split
  · exact collects_pure _
  · exact collects_fail _ _

theorem collects_labelledTarget : Collects looseVar (labelledTarget h) := by
  refine collects_take fun label => collects_bind collects_get fun d => ?_
  split
  · split
    · exact collects_pure _
    · exact collects_fail _ _
  · exact collects_fail _ _

theorem collects_loopStatus : Collects looseVar (loopStatus h) := by
  refine collects_take fun property => ?_
  split
  · exact collects_fail _ _
  · refine collects_bind collects_get fun d => ?_
    split
    · exact collects_pure _
    · exact collects_fail _ _

theorem collects_forHead (labelAt : Option Nat) (itemAt : Nat) (filterAt : Option Nat) :
    Collects looseVar (forHead h labelAt itemAt filterAt) := by
  refine collects_bind (collects_mapM fun i => collects_takeAs _ _ i) fun label => ?_
  refine collects_take fun item => collects_take fun collection => ?_
  refine collects_bind (collects_mapM fun i => collects_takeAs _ _ i) fun filter => ?_
  have hlabel : Collects looseVar (labelIndex label) := by
    refine collects_of_eq fun d a d' he => ?_
    cases he
    rfl
  have hiter : Collects looseVar declareHidden := by
    refine collects_of_eq fun d a d' he => ?_
    cases he
    rfl
  refine collects_bind hlabel fun _ => collects_bind (collects_modifyScopes _) fun _ => ?_
  refine collects_bind hiter fun _ => collects_bind (collects_declare _ _) fun _ => ?_
  exact collects_bind (collects_modifyScopes _) fun _ => collects_pure _

theorem action_collects (folding : Bool) (p : Production) (h : Handle) :
    Collects looseVar (action ⟨looseVar, folding⟩ p h) := by
  cases p with
  | start | placeholder | expressionStatement | blockStatement | returnValue | callNothing
  | firstArgument | integer | float | string | list | text | forIn | firstParameter
  | negative | not | bitNot =>
      exact collects_take fun _ => collects_pure _
  | noStatements | emptyStatement | returnNothing | literalTrue | literalFalse | literalNull
  | emptyList => exact collects_pure _
  | template | ifStatement | forStatement | expression | orOperand | andOperand
  | bitOrOperand | bitXorOperand | bitAndOperand | equalityOperand | relationOperand
  | shiftOperand | rangeOperand | additiveOperand | productOperand | unaryOperand
  | postfixOperand | functionOperand | parenthesised => exact collects_pure _
  | moreStatements =>
      refine collects_take fun stmts => ?_
      split
      · exact collects_pure _
      · exact collects_pure _
      · exact collects_pure _
      · exact collects_fail _ _
  | declare => exact collects_take fun _ => collects_bind (collects_declare _ _) fun _ =>
      collects_pure _
  | declareAssign =>
      exact collects_take fun _ => collects_take fun _ =>
        collects_bind (collects_declare _ _) fun _ => collects_pure _
  | assign =>
      exact collects_take fun _ => collects_take fun _ =>
        collects_bind (collects_resolve folding _ _) fun _ => collects_pure _
  | readVariable =>
      exact collects_take fun _ =>
        collects_bind (collects_resolve folding _ _) fun _ => collects_pure _
  | setProperty | setIndex | ifThenElse | ifThenElseIf =>
      exact collects_take fun _ => collects_take fun _ => collects_take fun _ => collects_pure _
  | forInElse | property | index | call | moreArguments | moreParameters | ifThen | or | and
  | bitOr | bitXor | bitAnd | equal | notEqual | less | lessEqual | greater | greaterEqual
  | shiftLeft | shiftRight | shiftRightZero | range | plus | minus | times | divide | remainder =>
      exact collects_take fun _ => collects_take fun _ => collects_pure _
  | breakInnermost | continueInnermost =>
      exact collects_bind (collects_innermostTarget _) fun _ => collects_pure _
  | breakLabel | continueLabel =>
      exact collects_bind collects_labelledTarget fun _ => collects_pure _
  | blockOpen | functionHeadNothing =>
      exact collects_bind (collects_modifyScopes _) fun _ => collects_pure _
  | block =>
      exact collects_bind (collects_modifyScopes _) fun _ => collects_take fun _ =>
        collects_pure _
  | forHead | forHeadWhere | forHeadLabel | forHeadLabelWhere => exact collects_forHead _ _ _
  | forLoop =>
      exact collects_take fun _ => collects_take fun _ =>
        collects_bind (collects_modifyScopes _) fun _ =>
          collects_bind (collects_modifyScopes _) fun _ => collects_pure _
  | loopStatus => exact collects_loopStatus
  | functionHead =>
      exact collects_take fun _ => collects_bind (collects_modifyScopes _) fun _ =>
        collects_bind (collects_declareAll _ _) fun _ => collects_pure _
  | function =>
      refine collects_take fun _ => collects_take fun _ => collects_of_eq fun d a d' he => ?_
      cases he
      rfl

-- Both steps do the same, or the strict one finds a name that nobody declares, which the loose one
-- takes for a parameter.
def Parts (strict loose : BuildM α) : Prop :=
  ∀ d, loose d = strict d ∨ ∃ pos name, strict d = .error ⟨pos, .undeclaredVariable name⟩ ∧
    ∃ slot a d', loose d = .ok (a, d') ∧ d'.params = (name, slot) :: d.params

theorem parts_take {expected : String} {select : Sem → Option α} {i : Nat}
    {strict loose : α → BuildM β} (hparts : ∀ a, Parts (strict a) (loose a)) :
    Parts (takeAs expected select h i >>= strict) (takeAs expected select h i >>= loose) := by
  intro d
  cases hselect : (h.value? i).bind select with
  | none =>
      rw [takeAs, hselect]
      exact .inl rfl
  | some a =>
      rw [takeAs, hselect]
      exact hparts a d

theorem parts_bind {strict loose : BuildM α} (hparts : Parts strict loose) (f : α → β) :
    Parts (strict >>= fun a => pure (f a)) (loose >>= fun a => pure (f a)) := by
  intro d
  rcases hparts d with hsame | ⟨pos, name, hstrict, slot, a, d', hloose, hparams⟩
  · refine .inl ?_
    simp only [bind, StateT.bind, hsame]
  · refine .inr ⟨pos, name, ?_, slot, f a, d', ?_, hparams⟩
    · simp only [bind, StateT.bind, hstrict]
      rfl
    · simp only [bind, StateT.bind, hloose]
      rfl

-- Names are looked up alike. Inside a function neither step makes a parameter.
theorem resolve_parts (folding : Bool) (name : String) (pos : Position) :
    Parts (resolve ⟨false, folding⟩ name pos) (resolve ⟨true, folding⟩ name pos) := by
  intro d
  cases hlookup : d.scopes.lookup name with
  | some slot =>
      have hfound : ∀ looseVar, resolve ⟨looseVar, folding⟩ name pos d = .ok (slot, d) := by
        intro looseVar
        rw [resolve]
        refine bind_eq_ok.mpr ⟨d, d, rfl, ?_⟩
        rw [hlookup]
        rfl
      exact .inl ((hfound true).trans (hfound false).symm)
  | none =>
      have hrefused : ∀ looseVar, (looseVar && d.scopes.isRoot) = false →
          resolve ⟨looseVar, folding⟩ name pos d = .error ⟨pos, .undeclaredVariable name⟩ := by
        intro looseVar hnot
        rw [resolve]
        refine bind_eq_error.mpr (.inr ⟨d, d, rfl, ?_⟩)
        rw [hlookup]
        dsimp only
        rw [hnot]
        rfl
      cases hroot : d.scopes.isRoot with
      | true =>
          have hmade : resolve ⟨true, folding⟩ name pos d = .ok ((d.scopes.declareRoot name).1,
              { d with
                scopes := (d.scopes.declareRoot name).2
                params := (name, (d.scopes.declareRoot name).1) :: d.params }) := by
            rw [resolve]
            refine bind_eq_ok.mpr ⟨d, d, rfl, ?_⟩
            rw [hlookup]
            dsimp only
            rw [hroot]
            rfl
          exact .inr ⟨pos, name, hrefused false rfl, _, _, _, hmade, rfl⟩
      | false =>
          have hinside : (true && d.scopes.isRoot) = false := hroot
          exact .inl ((hrefused true hinside).trans (hrefused false rfl).symm)

-- Names are resolved as the last thing that an action does, and nothing else depends on whether
-- variables are loose.
theorem action_parts (folding : Bool) (p : Production) (h : Handle) :
    Parts (action ⟨false, folding⟩ p h) (action ⟨true, folding⟩ p h) := by
  cases p with
  | assign =>
      exact parts_take fun name => parts_take fun value =>
        parts_bind (resolve_parts folding name (h.posAt 0))
          fun slot => Sem.stmt (.assign slot value (h.posAt 0))
  | readVariable =>
      exact parts_take fun name =>
        parts_bind (resolve_parts folding name (h.posAt 0))
          fun slot => Sem.expr (.var slot (h.posAt 0))
  | _ => exact fun d => .inl rfl

end Build

-- The error is about the name that was the first to become a parameter.
def ParseError.NamesFirst (e : ParseError) (d : Draft) : Prop :=
  ∃ pos name slot, e = ⟨pos, .undeclaredVariable name⟩ ∧ d.params.getLast? = some (name, slot)

namespace Template

theorem reduce_namesFirst (options : BuildOptions) (e : ParseError) (p : Nat) (h : Build.Handle)
    (d : Draft) (hd : e.NamesFirst d) : e.NamesFirst ((environment options).reduce p h d).2 := by
  change e.NamesFirst (Build.reduce options p h d).2
  rw [Build.reduce]
  split
  · exact hd
  · rename_i production hp
    split
    · rename_i value d' haction
      obtain ⟨pos, name, slot, he, hlast⟩ := hd
      have hcollects := Build.action_collects options.folding production h d value d' haction
      obtain ⟨new, hgrows⟩ := hcollects.1
      refine ⟨pos, name, slot, he, ?_⟩
      rw [← hgrows, List.getLast?_append, hlast]
      rfl
    · exact hd

-- With loose variables the parser does the same, up to the first name that nobody declares.
theorem environment_parts (folding : Bool) :
    (environment ⟨false, folding⟩).Parts (fun d => d.params = []) ParseError.NamesFirst
      (environment ⟨true, folding⟩) where
  tables := (environment_tables _).trans (environment_tables _).symm
  terminalNames := rfl
  next := rfl
  reduce := by
    intro p h d hd
    change Build.reduce ⟨true, folding⟩ p h d = Build.reduce ⟨false, folding⟩ p h d ∧
      (Build.reduce ⟨false, folding⟩ p h d).2.params = [] ∨
      ∃ e, (Build.reduce ⟨false, folding⟩ p h d).1 = .error e ∧
        e.NamesFirst (Build.reduce ⟨true, folding⟩ p h d).2
    simp only [Build.reduce]
    split
    · exact .inl ⟨rfl, hd⟩
    · rename_i production hp
      rcases Build.action_parts folding production h d with
        hsame | ⟨pos, name, hstrict, slot, v, d', hloose, hparams⟩
      · rw [hsame]
        refine .inl ⟨rfl, ?_⟩
        split
        · rename_i value d' haction
          exact ((Build.action_collects folding production h d value d' haction).2 rfl).trans hd
        · exact hd
      · rw [hstrict, hloose]
        refine .inr ⟨_, rfl, pos, name, slot, rfl, ?_⟩
        rw [hparams, hd]
        rfl
  marked := reduce_namesFirst ⟨true, folding⟩

-- The parameters that are found before compiling ends, in this order, however it ends.
def found (config : Config) (source : String) : List (String × Nat) :=
  (((environment ⟨config.looseVar, true⟩).parse (stepBound source) (.start source config.trim)
    .empty).map fun r => r.memory.params.reverse).getD []

theorem found_eq_of_parse {config : Config} {source : String} {r : Result Sem Lexer Draft}
    (h : (environment ⟨config.looseVar, true⟩).parse (stepBound source)
      (.start source config.trim) .empty = some r) :
    found config source = r.memory.params.reverse := by
  rw [found, h]
  rfl

theorem params_eq_found {config : Config} {source : String} {t : Template}
    (h : compile config source = .ok t) : t.params = found config source := by
  obtain ⟨r, hr, -⟩ := parse_answers ⟨config.looseVar, true⟩ source config.trim
  rw [compile_eq_of_parse hr, ofResult] at h
  rw [found_eq_of_parse hr]
  split at h
  · cases h
  · cases h
    rfl
  · cases h

-- Both settings compile alike and find no parameters, or the first parameter that is found is what
-- the strict setting does not know.
theorem compile_parts {strict loose : Config} (hstrict : strict.looseVar = false)
    (hloose : loose.looseVar = true) (htrim : strict.trim = loose.trim) (source : String) :
    compile loose source = compile strict source ∧ found loose source = [] ∨
    ∃ pos name slot, compile strict source = .error ⟨pos, .undeclaredVariable name⟩ ∧
      (found loose source).head? = some (name, slot) := by
  obtain ⟨r, hr, -⟩ := parse_answers ⟨strict.looseVar, true⟩ source strict.trim
  obtain ⟨r', hr', -⟩ := parse_answers ⟨loose.looseVar, true⟩ source loose.trim
  rw [compile_eq_of_parse hr, compile_eq_of_parse hr', found_eq_of_parse hr']
  rw [hstrict, htrim] at hr
  rw [hloose] at hr'
  rcases (environment_parts true).parse rfl hr hr' with ⟨rfl, hsure⟩ | ⟨e, he, hfirst⟩
  · refine .inl ⟨rfl, ?_⟩
    rw [hsure]
    rfl
  · obtain ⟨pos, name, slot, rfl, hlast⟩ := hfirst
    refine .inr ⟨pos, name, slot, ?_, ?_⟩
    · rw [ofResult, he]
    · rw [List.head?_reverse, hlast]

-- Loose variables are a conservative extension. What compiles without them compiles to the same
-- with them; what compiles with them and has no parameters compiles to the same without them; and
-- where the outcomes differ, the strict one is an error about the first parameter that is found.
theorem loose_variables_extend (config : Config) (source : String) :
    let strict := { config with looseVar := false }
    let loose := { config with looseVar := true }
    (∀ t, compile strict source = .ok t → compile loose source = .ok t ∧ t.params = []) ∧
    (∀ t, compile loose source = .ok t → t.params = [] → compile strict source = .ok t) ∧
    (compile strict source ≠ compile loose source →
      ∃ pos name slot, compile strict source = .error ⟨pos, .undeclaredVariable name⟩ ∧
        (found loose source).head? = some (name, slot)) := by
  intro strict loose
  have hstrict : strict.looseVar = false := rfl
  have hloose : loose.looseVar = true := rfl
  have htrim : strict.trim = loose.trim := rfl
  rcases compile_parts hstrict hloose htrim source with
    ⟨hsame, hnone⟩ | ⟨pos, name, slot, herror, hfirst⟩
  · refine ⟨fun t ht => ?_, fun t ht _ => hsame ▸ ht, fun hdiffer => absurd hsame.symm hdiffer⟩
    have hloose : compile loose source = .ok t := hsame.trans ht
    exact ⟨hloose, (params_eq_found hloose).trans hnone⟩
  · refine ⟨fun t ht => ?_, fun t ht hparams => ?_, fun _ => ⟨pos, name, slot, herror, hfirst⟩⟩
    · cases herror.symm.trans ht
    · have hempty : found loose source = [] := (params_eq_found ht).symm.trans hparams
      rw [hempty] at hfirst
      cases hfirst

end Template

end Stencil
