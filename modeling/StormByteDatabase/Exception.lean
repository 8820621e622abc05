import StormByteDatabase.Typedefs

/-!
# Query errors

The two subclasses of `QueryException` that the calls of a database return, with what their
constructors are given.
-/

namespace StormByteDatabase

inductive QueryException
  | unknownSTMT (name : Bytes)
  | executeError (error : Bytes)
  deriving DecidableEq, Repr

end StormByteDatabase
