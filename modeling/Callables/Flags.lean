namespace Callables

def bitsIn (wanted word : UInt32) : Bool := word &&& wanted == wanted

structure EntryFlags where
  bits : UInt32
deriving DecidableEq, Inhabited

namespace EntryFlags

def varArgs : EntryFlags := ⟨0x0001⟩
def keywords : EntryFlags := ⟨0x0002⟩
def noArgs : EntryFlags := ⟨0x0004⟩
def single : EntryFlags := ⟨0x0008⟩
/-- Binds to the type and not to the instance. -/
def onClass : EntryFlags := ⟨0x0010⟩
/-- Never binds. -/
def static : EntryFlags := ⟨0x0020⟩
/-- Replaces an attribute of the same name when a table is registered. -/
def coexist : EntryFlags := ⟨0x0040⟩
def fast : EntryFlags := ⟨0x0080⟩
/-- The callable itself is the leading argument. -/
def passFunction : EntryFlags := ⟨0x0100⟩
/-- The first positional argument is not taken off as the receiver. -/
def keepSelf : EntryFlags := ⟨0x0200⟩
/-- The body is host-language code and reports its own call events. -/
def host : EntryFlags := ⟨0x0400⟩
/-- Registered by the declaring component itself; tables skip it. -/
def custom : EntryFlags := ⟨0x0800⟩

def conventionMask : EntryFlags := ⟨0x008D⟩

def userMask : EntryFlags := ⟨0x00FF0000⟩

def user (n : UInt32) : EntryFlags := ⟨0x00010000 <<< (n &&& 7)⟩

def has (flags wanted : EntryFlags) : Bool := bitsIn wanted.bits flags.bits

def meet (a b : EntryFlags) : EntryFlags := ⟨a.bits &&& b.bits⟩

def join (a b : EntryFlags) : EntryFlags := ⟨a.bits ||| b.bits⟩

end EntryFlags

structure TypeFlags where
  bits : UInt32
deriving DecidableEq, Inhabited

namespace TypeFlags

def empty : TypeFlags := ⟨0⟩
def heapType : TypeFlags := ⟨1⟩
def baseType : TypeFlags := ⟨2⟩
/-- Instances have the base function layout and are called by dispatch. Never inherited. -/
def baseFunction : TypeFlags := ⟨4⟩
/-- Instances bind to the receiver when they are found on its class. -/
def methodDescriptor : TypeFlags := ⟨8⟩

def inherited : TypeFlags := methodDescriptor

def has (flags wanted : TypeFlags) : Bool := bitsIn wanted.bits flags.bits

def meet (a b : TypeFlags) : TypeFlags := ⟨a.bits &&& b.bits⟩

def join (a b : TypeFlags) : TypeFlags := ⟨a.bits ||| b.bits⟩

end TypeFlags
end Callables
