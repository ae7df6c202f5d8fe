import JvmCode.Flags.Basic
/-!
# Flags of methods, readers and writers

The access flags of a method, and the options a tool reads and writes class files with.
-/

namespace JvmCode

/-! ## Method access -/

/-- The access flags of methods; `VISIBILITY` stands for the three visibility bits together. -/
def methodAccessTable : FlagTable where
  width := 16
  declared := [
    ("PUBLIC", 0x0001), ("PRIVATE", 0x0002), ("PROTECTED", 0x0004), ("STATIC", 0x0008),
    ("FINAL", 0x0010), ("SYNCHRONIZED", 0x0020), ("BRIDGE", 0x0040), ("VARARGS", 0x0080),
    ("NATIVE", 0x0100), ("ABSTRACT", 0x0400), ("STRICT", 0x0800), ("SYNTHETIC", 0x1000),
    ("VISIBILITY", 0x0007)]

/-- Access flags of a method. -/
abbrev MethodAccess := Flags methodAccessTable

namespace MethodAccess

/-- The method has no receiver. -/
def isStatic (access : MethodAccess) : Bool := access.contains (0x0008#16)

/-- None of the visibility flags is set. -/
def isPackagePrivate (access : MethodAccess) : Bool := !access.intersects (0x0007#16)

end MethodAccess

/-! ## Reading and writing -/

/-- Options for writing class files: what to compute after the fact. -/
def writerTable : FlagTable where
  width := 32
  declared := [("COMPUTE_MAXS", 0x1), ("COMPUTE_FRAMES", 0x2)]

/-- Options for writing class files. -/
abbrev WriterFlags := Flags writerTable

/-- Options for reading class files: what to skip, and how to present frames. -/
def readerTable : FlagTable where
  width := 32
  declared := [
    ("SKIP_CODE", 0x1), ("SKIP_DEBUG", 0x2), ("SKIP_FRAMES", 0x4), ("EXPAND_FRAMES", 0x8)]

/-- Options for reading class files. -/
abbrev ReaderFlags := Flags readerTable

end JvmCode
