import Stencil.Proofs.Grammar.LeftCorner

namespace Stencil.Grammar

variable {g : Grammar}

-- A string of symbols derives a string of terminals.
inductive Yields (g : Grammar) : List Symbol → List Nat → Prop
  | nil : Yields g [] []
  | terminal {t : Nat} {rest : List Symbol} {word : List Nat} (hrest : Yields g rest word) :
      Yields g (.terminal t :: rest) (t :: word)
  | nonterminal {p : Nat} {rule : Rule} {rest : List Symbol} {word more : List Nat}
      (hrule : g.rules[p]? = some rule) (hright : Yields g rule.right word)
      (hrest : Yields g rest more) : Yields g (.nonterminal rule.left :: rest) (word ++ more)

-- Sentences are what the start rule derives. A parse ends with that rule and no other.
def Sentence (g : Grammar) (word : List Nat) : Prop :=
  ∃ rule, g.rules[0]? = some rule ∧ g.Yields rule.right word

-- Every non-terminal derives some string of terminals.
def Productive (g : Grammar) : Prop := ∀ n < g.nonterminals, ∃ word, g.Yields [.nonterminal n] word

namespace Yields

variable {before after : List Symbol} {first second word : List Nat}

theorem append (h : g.Yields before first) (hafter : g.Yields after second) :
    g.Yields (before ++ after) (first ++ second) := by
  induction h with
  | nil => exact hafter
  | terminal _ ih => exact .terminal ih
  | nonterminal hrule hright _ _ ih =>
      rw [List.append_assoc]
      exact .nonterminal hrule hright ih

-- What two strings derive together falls into what each of them derives.
theorem split (h : g.Yields (before ++ after) word) :
    ∃ first second, word = first ++ second ∧ g.Yields before first ∧ g.Yields after second := by
  induction before generalizing word with
  | nil => exact ⟨[], word, rfl, .nil, h⟩
  | cons symbol before ih =>
      cases h with
      | terminal hrest =>
          obtain ⟨first, second, rfl, hfirst, hsecond⟩ := ih hrest
          exact ⟨_, second, rfl, .terminal hfirst, hsecond⟩
      | nonterminal hrule hright hrest =>
          obtain ⟨first, second, rfl, hfirst, hsecond⟩ := ih hrest
          exact ⟨_, second, (List.append_assoc _ _ _).symm, .nonterminal hrule hright hfirst,
            hsecond⟩

-- The right side of a rule may stand for its left side.
theorem fold {p : Nat} {rule : Rule} (hrule : g.rules[p]? = some rule)
    (h : g.Yields (before ++ rule.right ++ after) word) :
    g.Yields (before ++ .nonterminal rule.left :: after) word := by
  obtain ⟨front, last, rfl, hfront, hlast⟩ := h.split
  obtain ⟨first, middle, rfl, hfirst, hmiddle⟩ := hfront.split
  rw [List.append_assoc]
  exact hfirst.append (.nonterminal hrule hmiddle hlast)

end Yields

theorem Productive.exists_yields (h : g.Productive) {symbols : List Symbol}
    (hknown : ∀ symbol ∈ symbols, g.knows symbol = true) : ∃ word, g.Yields symbols word := by
  induction symbols with
  | nil => exact ⟨[], .nil⟩
  | cons symbol rest ih =>
      obtain ⟨hsymbol, hrest⟩ := List.forall_mem_cons.mp hknown
      obtain ⟨more, hmore⟩ := ih hrest
      cases symbol with
      | terminal t => exact ⟨_, .terminal hmore⟩
      | nonterminal n =>
          obtain ⟨word, hword⟩ := h n (by simpa [knows] using hsymbol)
          exact ⟨_, hword.append hmore⟩

-- With something known behind them the two strings make up what rule 0 derives.
def Extends (g : Grammar) (before rest : List Symbol) : Prop :=
  ∃ behind, (∀ symbol ∈ behind, g.knows symbol = true) ∧
    ∀ word, g.Yields (before ++ rest ++ behind) word → g.Sentence word

namespace Extends

variable {before rest : List Symbol}

theorem start {rule : Rule} (hrule : g.rules[0]? = some rule) : g.Extends [] rule.right := by
  refine ⟨[], by simp, ?_⟩
  intro word h
  rw [List.nil_append, List.append_nil] at h
  exact ⟨rule, hrule, h⟩

theorem shift {symbol : Symbol} (h : g.Extends before (symbol :: rest)) :
    g.Extends (before ++ [symbol]) rest := by
  obtain ⟨behind, hknown, hsentence⟩ := h
  refine ⟨behind, hknown, ?_⟩
  simpa using hsentence

theorem expand {p : Nat} {rule : Rule} (hrule : g.rules[p]? = some rule)
    (h : g.Extends before (.nonterminal rule.left :: rest))
    (hrest : ∀ symbol ∈ rest, g.knows symbol = true) : g.Extends before rule.right := by
  obtain ⟨behind, hknown, hsentence⟩ := h
  refine ⟨rest ++ behind, ?_, ?_⟩
  · intro symbol hsymbol
    rcases List.mem_append.mp hsymbol with hsymbol | hsymbol
    · exact hrest symbol hsymbol
    · exact hknown symbol hsymbol
  · intro word hword
    apply hsentence
    have hfold := hword.fold hrule
    simpa using hfold

-- A non-terminal may be read as what it can start with.
theorem leftReaches (hg : g.Valid) {m n : Nat} (hreach : g.LeftReaches m n)
    (h : g.Extends before (.nonterminal m :: rest))
    (hrest : ∀ symbol ∈ rest, g.knows symbol = true) :
    ∃ more, (∀ symbol ∈ more, g.knows symbol = true) ∧
      g.Extends before (.nonterminal n :: more) := by
  induction hreach using Relation.ReflTransGen.head_induction_on generalizing rest with
  | refl => exact ⟨rest, hrest, h⟩
  | head hstarts _ ih =>
      obtain ⟨rule, hmem, more, rfl, hright⟩ := hstarts
      obtain ⟨p, hrule⟩ := Array.mem_iff_getElem?.mp hmem
      have hexpand := h.expand hrule hrest
      rw [hright] at hexpand
      refine ih hexpand ?_
      intro symbol hsymbol
      exact hg.knows rule hmem symbol (by simp [hright, hsymbol])

-- So a rule may begin where something comes next that can start with its left side.
theorem begin (hg : g.Valid) {r m : Nat} {rule : Rule} (hrule : g.rules[r]? = some rule)
    (hreach : g.LeftReaches m rule.left) (h : g.Extends before (.nonterminal m :: rest))
    (hrest : ∀ symbol ∈ rest, g.knows symbol = true) : g.Extends before rule.right := by
  obtain ⟨more, hknown, hleft⟩ := h.leftReaches hg hreach hrest
  exact hleft.expand hrule hknown

-- What was read so far begins a sentence.
theorem exists_sentence (hproductive : g.Productive) (h : g.Extends before rest)
    (hrest : ∀ symbol ∈ rest, g.knows symbol = true) {word : List Nat}
    (hword : g.Yields before word) : ∃ more, g.Sentence (word ++ more) := by
  obtain ⟨behind, hknown, hsentence⟩ := h
  obtain ⟨first, hfirst⟩ := hproductive.exists_yields hrest
  obtain ⟨second, hsecond⟩ := hproductive.exists_yields hknown
  refine ⟨first ++ second, hsentence _ ?_⟩
  rw [← List.append_assoc]
  exact (hword.append hfirst).append hsecond

end Extends

end Stencil.Grammar
