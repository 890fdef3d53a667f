namespace Stencil

-- A value that can be written down in a source and never changes.
inductive Literal where
  | null
  | bool (b : Bool)
  | int (n : Int64)
  | float (x : Float)
  | str (s : String)
  -- All integers from `first` to `last`, both included, upward or downward.
  | range (first last : Int64)
  deriving Repr

end Stencil
