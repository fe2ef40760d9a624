import StreamClient.Message

/-! The 32-bit FNV-1a hash. -/

namespace StreamClient.Hash

def basis : UInt32 := 0x811c9dc5

def prime : UInt32 := 0x01000193

def mix (h : UInt32) (b : UInt8) : UInt32 := (h ^^^ b.toUInt32) * prime

def fnv1a (data : Bytes) : UInt32 := data.foldl mix basis

@[simp] theorem fnv1a_nil : fnv1a [] = basis := rfl

theorem fnv1a_concat (data : Bytes) (b : UInt8) : fnv1a (data ++ [b]) = mix (fnv1a data) b := by
  simp [fnv1a]

end StreamClient.Hash
