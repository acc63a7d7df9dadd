/-!
# Errors of the quantizer

The exceptions of training and persistence, each with its text. `faiss` is
what `FAISS_THROW_IF_NOT_MSG` throws, `assertion` a failed `FAISS_ASSERT`,
which aborts the program.
-/

namespace Recast

inductive ModelError where
  | invalidArgument (message : String)
  | runtime (message : String)
  | faiss (message : String)
  | assertion (condition : String)
  deriving DecidableEq, Repr

end Recast
