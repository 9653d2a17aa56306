import DnsmasqRs.ByteCursor
import DnsmasqRs.Lib.Utf8

/-!
# The question digest (`hash_questions.rs`)

`hash_questions` feeds two hashers the same bytes behind different seeds: for every question of the
packet the labels of its name in lower case, a dot behind each, and then its type and class.  It
walks the labels itself; at a compression pointer it stops as if the name ended there.

A hasher is what it has been fed, and `finish` is the standard library's hash of a byte stream, of
which nothing is assumed here.
-/

namespace DnsmasqRs.HashQuestions

open Wire Utf8 ByteCursor

/-- The label walk of `hash_questions` from `pos`, with the bytes fed so far: the bytes fed after
the name and the position behind it. -/
def hashName (pkt : Bytes) (pos : ℕ) (fed : Bytes) : Option (Bytes × ℕ) :=
  match pkt[pos]? with
  | none => none
  | some len =>
    if len &&& 0xC0 = 0xC0 then
      -- compression pointer: not followed, treated as the end
      if pkt.length ≤ pos + 1 then none else some (fed, pos + 2)
    else if len = 0 then some (fed, pos + 1)
    else if pkt.length < pos + 1 + len.toNat then none
    else
      hashName pkt (pos + 1 + len.toNat) (fed ++ ((pkt.drop (pos + 1)).take len.toNat).map lowerByte
        ++ [0x2E])
  termination_by pkt.length - pos

/-- The loop of `hash_questions` over the questions. -/
def hashQuestionsLoop (pkt : Bytes) : ℕ → ℕ → Bytes → Option Bytes
  | 0, _, fed => some fed
  | count + 1, pos, fed => do
    let (fed, pos) ← hashName pkt pos fed
    let qtype ← readU16Be pkt pos
    let qclass ← readU16Be pkt (pos + 2)
    hashQuestionsLoop pkt count (pos + 4) (fed ++ le16 qtype ++ le16 qclass)

/-- Everything `hash_questions` feeds either hasher behind its seed, or `none` where it gives up. -/
def questionStream (pkt : Bytes) : Option Bytes :=
  if pkt.length < 12 then none
  else do
    let qdcount ← readU16Be pkt 4
    if qdcount = 0 then none else hashQuestionsLoop pkt qdcount.toNat 12 []

/-- The seeds `0xdead_beef_u64` and `0xcafe_babe_u64` as they are fed. -/
def seed1 : Bytes := [0xef, 0xbe, 0xad, 0xde, 0, 0, 0, 0]

@[inherit_doc seed1]
def seed2 : Bytes := [0xbe, 0xba, 0xfe, 0xca, 0, 0, 0, 0]

variable {H : Type}

/-- The digest of a stream: both hashers' results, one after the other. -/
def digest (finish : Bytes → H) (stream : Bytes) : H × H :=
  (finish (seed1 ++ stream), finish (seed2 ++ stream))

/-- `hash_questions`. -/
def hashQuestions (finish : Bytes → H) (pkt : Bytes) : Option (H × H) :=
  (questionStream pkt).map (digest finish)

end DnsmasqRs.HashQuestions
