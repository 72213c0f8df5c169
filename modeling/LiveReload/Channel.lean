namespace LiveReload

-- A capacity that no channel can be made with.
inductive Channel.CapacityFault where
  | zero
  | tooLarge
deriving DecidableEq

structure Channel (μ : Type) where
  -- How many messages are kept; a power of two.
  size : Nat
  -- The newest messages sent, oldest first.
  kept : List μ
  sent : Nat
  receivers : Nat

structure Receiver where
  -- The position of the next message to read; the first message ever sent is at 0.
  next : Nat
deriving DecidableEq

-- What a receiver that does not wait finds.
inductive Reception (μ : Type) where
  | message (message : μ)
  | empty
  | closed
  | lagged (lost : Nat)
deriving DecidableEq

namespace Channel

variable {μ : Type}

def maxCapacity : Nat := 0x7fffffffffffffff

-- A slot takes 32 bytes, and no buffer may exceed `maxCapacity` bytes.
def slotSize : Nat := 32

-- The least power of two that is not below `capacity`.
def slots (capacity : Nat) : Nat :=
  if capacity ≤ 1 then 1 else 1 <<< ((capacity - 1).log2 + 1)

def create (capacity : Nat) : Except CapacityFault (Channel μ) :=
  if capacity = 0 then .error .zero
  else
    let size := slots capacity
    if maxCapacity < capacity ∨ maxCapacity < size * slotSize then .error .tooLarge
    else .ok { size, kept := [], sent := 0, receivers := 0 }

-- A new receiver sees only what is sent later.
def subscribe (channel : Channel μ) : Receiver × Channel μ :=
  (⟨channel.sent⟩, { channel with receivers := channel.receivers + 1 })

def unsubscribe (channel : Channel μ) : Channel μ :=
  { channel with receivers := channel.receivers - 1 }

-- Without receivers a message goes nowhere and takes no position.
def send (channel : Channel μ) (message : μ) : Option (Channel μ) :=
  if channel.receivers = 0 then none
  else
    let kept := channel.kept ++ [message]
    some { channel with kept := kept.drop (kept.length - channel.size), sent := channel.sent + 1 }

-- The position of the oldest message still kept.
def oldest (channel : Channel μ) : Nat := channel.sent - channel.kept.length

-- A receiver that fell behind by more than the channel keeps has lost the oldest messages, and is
-- told how many before it reads on.
-- `isOpen` says whether anybody can still send.
def receive (channel : Channel μ) (isOpen : Bool) (receiver : Receiver) : Reception μ × Receiver :=
  if receiver.next < channel.oldest then
    (.lagged (channel.oldest - receiver.next), ⟨channel.oldest⟩)
  else
    match channel.kept[receiver.next - channel.oldest]? with
    | some message => (.message message, ⟨receiver.next + 1⟩)
    | none => (if isOpen then .empty else .closed, receiver)

end Channel

end LiveReload
