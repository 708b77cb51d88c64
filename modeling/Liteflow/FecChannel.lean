import Liteflow.Fec

/-!
# The error correction of one connection, end to end

The sender numbers the data packets it pushes and adds a packet with the exclusive or of a group
whenever the group is full or `fec_post` closes it early. The receiver is fed with some of these
packets, in some order, and moves its window in between.
-/

namespace Liteflow

/-- What one side of a connection sends and the other feeds to its `fec_mod_t`. -/
inductive FecPacket where
  | data (post : DataPost)
  | sum (fec : DataFec)
deriving DecidableEq

namespace FecPacket

def fecSeq : FecPacket → U32
  | data post => post.fecSeq
  | sum fec => fec.fecSeq

def opens : FecPacket → Option U32
  | data post => if post.fecIndex = 0 then some post.fecSeq else none
  | sum _ => none

end FecPacket

inductive FecSend where
  | push (seq : U32) (data : List Byte)
  | post

/-- The bytes of the packet that is pushed. -/
def FecSend.size : FecSend → Nat
  | push _ data => sizeofDataPost + data.length
  | post => 0

inductive FecArrival where
  | packet (packet : FecPacket)
  | checkpoint (recvStart : U32)
deriving DecidableEq

namespace FecMod

variable (cfg : Config)

/-- A new data packet, with the header of `get_fec_header`. -/
def nextPost (fm : FecMod) (seq : U32) (data : List Byte) : DataPost where
  seq := seq
  len := BitVec.ofNat 16 data.length
  fecSeq := fm.currentFecSeq
  fecIndex := fm.currentFecIndex
  data := data

def fecPost (fm : FecMod) : FecMod × List FecPacket :=
  if fm.currentFecIndex = 0 then (fm, []) else (fm.resetGroup cfg, [.sum fm.groupPacket])

def send (fm : FecMod) : FecSend → FecMod × List FecPacket
  | .push seq data =>
      let post := fm.nextPost seq data
      let pushed := fm.fecPushData post
      if pushed.currentFecMembers ≤ pushed.currentFecIndex then
        let posted := pushed.fecPost cfg
        (posted.1, .data post :: posted.2)
      else
        (pushed, [.data post])
  | .post => fm.fecPost cfg

def sendAll (fm : FecMod) (ops : List FecSend) : FecMod × List FecPacket :=
  ops.foldl (fun run op => ((run.1.send cfg op).1, run.2 ++ (run.1.send cfg op).2)) (fm, [])

/-- A packet or a checkpoint at a receiver that has memory for its groups. -/
def receive (fm : FecMod) : FecArrival → Inserted
  | .packet (.data post) => fm.fecInsertData true post
  | .packet (.sum fec) => fm.fecInsertSum true fec
  | .checkpoint recvStart => { fec := fm.fecCheckpoint cfg recvStart }

def receiveAll (fm : FecMod) (arrivals : List FecArrival) : FecMod :=
  arrivals.foldl (fun fm arrival => (fm.receive cfg arrival).fec) fm

/-- `fec_recv_start <= fseq < fec_recv_end`, as `fec_insert` tests it. -/
def InRange (fm : FecMod) (fseq : U32) : Prop :=
  fseq - fm.fecRecvStart < fm.fecRecvEnd - fm.fecRecvStart

instance (fm : FecMod) (fseq : U32) : Decidable (fm.InRange fseq) :=
  inferInstanceAs (Decidable (_ < _))

/-- A packet of group `k` comes inside the window, and a checkpoint does not drop the group. -/
def Attends (k : U32) (fm : FecMod) : FecArrival → Prop
  | .packet packet => packet.fecSeq = k → fm.InRange k
  | .checkpoint recvStart =>
      (fm.fecQueue.queueGet k).isSome → ((fm.fecCheckpoint cfg recvStart).fecQueue.queueGet k).isSome

instance (k : U32) (fm : FecMod) (arrival : FecArrival) : Decidable (fm.Attends cfg k arrival) :=
  match arrival with
  | .packet packet => inferInstanceAs (Decidable (packet.fecSeq = k → fm.InRange k))
  | .checkpoint _ => inferInstanceAs (Decidable (_ → _))

end FecMod

/-- The state of a receiver after the first `n` arrivals. -/
def receiverAt (cfg : Config) (arrivals : List FecArrival) (n : Nat) : FecMod :=
  (FecMod.init cfg).receiveAll cfg (arrivals.take n)

/-- The packet that the receiver hands to `litedt_on_data_recv` at arrival `n`. -/
def handedOver (cfg : Config) (arrivals : List FecArrival) (n : Nat) : Option DataPost :=
  arrivals[n]?.bind (fun arrival => ((receiverAt cfg arrivals n).receive cfg arrival).recovered)

/-- Group `k` is attended at every arrival. -/
def Attended (cfg : Config) (k : U32) (arrivals : List FecArrival) : Prop :=
  ∀ n < arrivals.length, ∀ arrival ∈ arrivals[n]?, (receiverAt cfg arrivals n).Attends cfg k arrival

instance (cfg : Config) (k : U32) (arrivals : List FecArrival) :
    Decidable (Attended cfg k arrivals) :=
  inferInstanceAs (Decidable (∀ n < arrivals.length, ∀ arrival ∈ arrivals[n]?, _))

/-- Everything that arrives was sent. -/
def FromSender (sent : List FecPacket) (arrivals : List FecArrival) : Prop :=
  ∀ packet, .packet packet ∈ arrivals → packet ∈ sent

/-- The groups in the order in which they are opened. -/
def groupStarts (sent : List FecPacket) : List U32 :=
  sent.filterMap FecPacket.opens

/-- Of the data packets of group `fseq` among `sent`, `post` alone has not arrived, and the packet
with their exclusive or has. -/
def OnlyMissing (sent : List FecPacket) (fseq : U32) (seen : List FecArrival) (post : DataPost) :
    Prop :=
  (∃ fec : DataFec, FecArrival.packet (.sum fec) ∈ seen ∧ fec.fecSeq = fseq) ∧
    FecPacket.data post ∈ sent ∧ post.fecSeq = fseq ∧ FecArrival.packet (.data post) ∉ seen ∧
    ∀ other : DataPost, FecPacket.data other ∈ sent → other.fecSeq = fseq → other ≠ post →
      FecArrival.packet (.data other) ∈ seen

end Liteflow
