import Concordance.Bytes

namespace Concordance.KeyHash

def seed : UInt32 := 5381

def step (h : UInt32) (b : UInt8) : UInt32 := (h * 33) ^^^ b.toUInt32

def extend (h : UInt32) (b : Bytes) : UInt32 := b.foldl step h

def hash (b : Bytes) : UInt32 := extend seed b

end Concordance.KeyHash
