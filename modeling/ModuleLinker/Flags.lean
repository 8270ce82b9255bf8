namespace ModuleLinker

/-! # Flags

The bits that describe types, members and resources. Bits without a meaning here are carried
along unchanged.
-/

/-- The flags of a type. -/
structure TypeFlags where
  bits : UInt32
deriving DecidableEq, Repr, Inhabited

namespace TypeFlags

/-- The bits that hold the visibility. -/
def visibilityMask : UInt32 := 0x7

/-- Not visible outside the module. -/
def notPublic : TypeFlags := ⟨0x0⟩

/-- Visible outside the module. -/
def publicType : TypeFlags := ⟨0x1⟩

/-- Nested in another type, and visible wherever that one is. -/
def nestedPublic : TypeFlags := ⟨0x2⟩

/-- An interface. -/
def interface : TypeFlags := ⟨0x20⟩

/-- A type whose values can be serialised. -/
def serializable : TypeFlags := ⟨0x2000⟩

/-- Whether all bits of `part` are set in `flags`. -/
def contains (flags part : TypeFlags) : Bool := flags.bits &&& part.bits == part.bits

/-- The visibility bits. -/
def visibility (flags : TypeFlags) : UInt32 := flags.bits &&& visibilityMask

/-- Whether a top-level type with these flags is visible outside its module. -/
def isPublic (flags : TypeFlags) : Bool := flags.visibility == publicType.bits

/-- The flags with the visibility of `source`. -/
def withVisibility (flags source : TypeFlags) : TypeFlags :=
  ⟨(flags.bits &&& ~~~visibilityMask) ||| source.visibility⟩

end TypeFlags

/-- The flags of a field. -/
structure FieldFlags where
  bits : UInt32
deriving DecidableEq, Repr, Inhabited

namespace FieldFlags

/-- Accessible to all. -/
def publicField : FieldFlags := ⟨0x6⟩

end FieldFlags

/-- The flags of a method. -/
structure MethodFlags where
  bits : UInt32
deriving DecidableEq, Repr, Inhabited

namespace MethodFlags

/-- Accessible to all, and hidden by a method of the same name and signature. -/
def publicInstance : MethodFlags := ⟨0x86⟩

/-- Like `publicInstance`, for a method without instance. -/
def publicStatic : MethodFlags := ⟨0x96⟩

end MethodFlags

/-- The flags of a resource. -/
structure ResourceFlags where
  bits : UInt32
deriving DecidableEq, Repr, Inhabited

namespace ResourceFlags

/-- Visible outside the module. -/
def exported : ResourceFlags := ⟨0x1⟩

/-- Visible inside the module only. -/
def hidden : ResourceFlags := ⟨0x2⟩

end ResourceFlags

end ModuleLinker
