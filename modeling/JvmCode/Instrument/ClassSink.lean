import JvmCode.Instrument.Declared
import JvmCode.Sink.Tracer
/-!
# Class sinks and wrappers

A *class sink* receives the members of a class file, and for the body of each method it
is interested in provides a sink of some type `V`. A *wrapper* replaces such a sink by
another one, knowing which declared method of which type it is for. Both have their
effects in a monad `m`.
-/

namespace JvmCode

/-- Monads that can log. -/
class Logs (m : Type → Type) where
  log : LogRecord → m Unit

/-- What a class file says about a method before its body. -/
structure MethodHeader where
  access : MethodAccess
  name : String
  descriptor : String
  signature : Option String
  exceptions : List String

namespace MethodHeader

/-- The name followed by the descriptor. -/
def key (header : MethodHeader) : String := header.name ++ header.descriptor

end MethodHeader

/-- Receives the members of a class file. -/
structure ClassSink (m : Type → Type) (V : Type) where
  /-- Starts a method; answers the sink for its body, if there is interest in it. -/
  beginMethod : MethodHeader → m (Option V)
  /-- No more members will come. -/
  finish : m (Except EmitError Unit)

/-- Replaces the sink for the body of a declared method. -/
def SinkWrapper (m : Type → Type) (V : Type) := DeclaredType → DeclaredMethod → V → m V

namespace SinkWrapper

variable {m : Type → Type} {V : Type} [Monad m]

/-- Puts a tracer in front, labelled with the type, the method and its descriptor. -/
def trace (ofTracer : Tracer V → V) : SinkWrapper m V := fun type method sink =>
  return ofTracer (.start (type.name.text ++ "." ++ method.key) sink)

end SinkWrapper

end JvmCode
