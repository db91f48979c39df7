/-
# One gzip member, and nothing else

`createStrictGunzip` of `remote-gzip.js`.  The framing of a member is read here, as the chunks come:
a plain header, then one raw deflate stream by the engine of zlib, which stops at its end, and what
is left over is the trailer.  The decoded bytes go on as the engine gives them out, counted, and
their end is held back until the trailer has been checked.

The input and the output go on side by side, in any order (`machine`).  Whatever the order, and
however the input is cut, the output ends without an error just if the input is one member within
both caps, and then it is what the member decodes to (`strictGunzip_ends_iff`).

The engine is a parameter: it consumes one raw deflate stream, and says how much that was
(`Inflate.Engine.Inflates`).
-/

import LaneBroker.Basis.Crc32
import LaneBroker.Basis.Machine
import LaneBroker.Stream.Inflate
import Mathlib.Data.Prod.Lex

namespace LaneBroker
namespace Stream
namespace Gunzip

open LaneBroker.Basis LaneBroker.Stream.Inflate

/-! ### The source -/

/-- The caps. -/
structure Limits where
  maxDecodedBytes : ℕ
  maxCompressedBytes : ℕ

/-- `CRC_TABLE`. -/
def CRC_TABLE : List (BitVec 32) := (List.range 256).map fun n => Crc32.shifts 8 (BitVec.ofNat 32 n)

/-- **`crc32Update`.** -/
def crc32Update (crc : BitVec 32) (chunk : Bytes) : BitVec 32 :=
  ~~~ chunk.foldl (fun c b =>
    CRC_TABLE.getD ((c ^^^ b.toBitVec.setWidth 32) &&& 0xff#32).toNat 0 ^^^ (c >>> 8)) (~~~ crc)

/-- `t.readUInt32LE(offset)`. -/
def readUInt32LE (t : Bytes) (offset : ℕ) : ℕ :=
  ((t.drop offset).take 4).foldr (fun b n => b.toNat + 256 * n) 0

/-- How the output stands. -/
inductive Status
  | running
  | ended
  | failed
  deriving DecidableEq

/-- **The state of both sides.** -/
structure State (e : Engine) where
  /-- The chunks that are still to be written. -/
  source : List Bytes
  compressed : ℕ := 0
  head : Bytes := []
  headerDone : Bool := false
  inflate : e.State
  trailer : Bytes := []
  /-- What `trailerArrived` was called with. -/
  trailerReceived : Option Bytes := none
  /-- What the engine has given out and the counter has not taken. -/
  queue : List Bytes := []
  decoded : ℕ := 0
  crc : BitVec 32 := 0
  output : Bytes := []
  status : Status := .running

section Source

variable {e : Engine} (limits : Limits)

/-- Every stage is destroyed. -/
def State.fail (g : State e) : State e := { g with status := .failed }

/-- `head[0] === 0x1f && head[1] === 0x8b && head[2] === 0x08 && head[3] === 0`. -/
def isPlainHeader (head : Bytes) : Bool := head.take 4 = [0x1f, 0x8b, 0x08, 0]

/-- The rest of `write`, behind the header. -/
def writeBody (g : State e) (body : Bytes) : State e :=
  if body = [] then g
  else
    match e.write g.inflate body with
    | none => g.fail
    | some (inflate, consumed, chunks) =>
      let trailer := if consumed < body.length then g.trailer ++ body.drop consumed else g.trailer
      let g := { g with inflate, trailer, queue := g.queue ++ chunks }
      if 8 < trailer.length then g.fail else g

/-- **`write`.** -/
def write (g : State e) (chunk : Bytes) : State e :=
  let g := { g with compressed := g.compressed + chunk.length }
  if limits.maxCompressedBytes < g.compressed then g.fail
  else if g.headerDone then writeBody g chunk
  else
    let head := g.head ++ chunk
    if head.length < 10 then { g with head }
    else if !isPlainHeader head then g.fail
    else writeBody { g with headerDone := true, head := [] } (head.drop 10)

/-- **`final`.** -/
def final (g : State e) : State e :=
  if !g.headerDone then g.fail
  else
    match e.finish g.inflate with
    | none => g.fail
    | some chunks =>
      if g.trailer.length ≠ 8 then g.fail
      else { g with queue := g.queue ++ chunks, trailerReceived := some g.trailer }

/-- `transform` of the counter. -/
def count (g : State e) (chunk : Bytes) : State e :=
  let g := { g with decoded := g.decoded + chunk.length, crc := crc32Update g.crc chunk }
  if limits.maxDecodedBytes < g.decoded then g.fail else { g with output := g.output ++ chunk }

/-- `flush` of the counter. -/
def flush (g : State e) (t : Bytes) : State e :=
  if readUInt32LE t 0 ≠ g.crc.toNat then g.fail
  else if readUInt32LE t 4 ≠ g.decoded % 2 ^ 32 then g.fail
  else { g with status := .ended }

/-- What happens next. -/
inductive Action
  | write
  | final
  | count
  | flush
  deriving DecidableEq

/-- What an action does, where it is its turn. -/
def act (g : State e) : Action → Option (State e)
  | .write =>
    match g.source with
    | [] => none
    | chunk :: source => some (write limits { g with source } chunk)
  | .final => if g.source = [] ∧ g.trailerReceived = none then some (final g) else none
  | .count =>
    match g.queue with
    | [] => none
    | chunk :: queue => some (count limits { g with queue } chunk)
  | .flush =>
    match g.queue, g.trailerReceived with
    | [], some t => some (flush g t)
    | _, _ => none

variable (e) in
/-- **The stream over the chunks**: both sides go on while neither has failed. -/
def machine (chunks : List Bytes) : Machine (State e) Action where
  start g := g = { source := chunks, inflate := e.start }
  next g a := if g.status = .running then act limits g a else none

end Source

/-! ### A member -/

/-- **One member**, within both caps, and what it decodes to. -/
def IsMember (deflates : Bytes → Bytes → Prop) (limits : Limits) (input d : Bytes) : Prop :=
  ∃ header s trailer, input = header ++ (s ++ trailer) ∧ header.length = 10 ∧
    isPlainHeader header = true ∧ deflates s d ∧ trailer.length = 8 ∧
    readUInt32LE trailer 0 = (Crc32.crc32 d).toNat ∧ readUInt32LE trailer 4 = d.length % 2 ^ 32 ∧
    input.length ≤ limits.maxCompressedBytes ∧ d.length ≤ limits.maxDecodedBytes

/-! ### The checksum -/

theorem crcTable_getD {n : ℕ} (h : n < 256) :
    CRC_TABLE.getD n 0 = Crc32.shifts 8 (BitVec.ofNat 32 n) := by
  have hrange : n < (List.range 256).length := by rwa [List.length_range]
  rw [CRC_TABLE, List.getD_eq_getElem?_getD, List.getElem?_map, List.getElem?_eq_getElem hrange,
    List.getElem_range]
  rfl

/-- **A byte by the table** is a byte bit by bit. -/
theorem table_byte (c : BitVec 32) (b : UInt8) :
    CRC_TABLE.getD ((c ^^^ b.toBitVec.setWidth 32) &&& 0xff#32).toNat 0 ^^^ (c >>> 8) =
      Crc32.byte c b := by
  have hsmall : ((c ^^^ b.toBitVec.setWidth 32) &&& 0xff#32).toNat < 256 := by
    rw [BitVec.toNat_and]
    exact lt_of_le_of_lt Nat.and_le_right (by decide)
  have hnone : b.toBitVec.setWidth 32 >>> 8 = 0#32 := by
    refine BitVec.eq_of_getLsbD_eq fun i hi => ?_
    rw [BitVec.getLsbD_ushiftRight, BitVec.getLsbD_setWidth, BitVec.getLsbD_of_ge b.toBitVec _ (by omega)]
    simp
  rw [crcTable_getD hsmall, BitVec.ofNat_toNat, BitVec.setWidth_eq, Crc32.byte,
    Crc32.shifts_eq (c ^^^ b.toBitVec.setWidth 32), BitVec.ushiftRight_xor_distrib, hnone,
    BitVec.xor_zero]

/-- **The running checksum is the checksum** of what has gone by. -/
theorem crc32Update_crc32 (bytes chunk : Bytes) :
    crc32Update (Crc32.crc32 bytes) chunk = Crc32.crc32 (bytes ++ chunk) := by
  unfold crc32Update Crc32.crc32
  simp only [table_byte, BitVec.not_not, List.foldl_append]

/-! ### What holds on the way -/

section Run

variable {e : Engine} {deflates : Bytes → Bytes → Prop} {limits : Limits} {input : Bytes}

/-- **What a member is**, behind its header. -/
theorem IsMember.split {d header more : Bytes} (h : IsMember deflates limits input d)
    (hheader : header.length = 10) (heq : header ++ more = input) :
    isPlainHeader header = true ∧ ∃ s t, more = s ++ t ∧ deflates s d ∧ t.length = 8 ∧
      readUInt32LE t 0 = (Crc32.crc32 d).toNat ∧ readUInt32LE t 4 = d.length % 2 ^ 32 ∧
      input.length ≤ limits.maxCompressedBytes ∧ d.length ≤ limits.maxDecodedBytes := by
  obtain ⟨header', s, t, hinput, hlength, hplain, hs, ht, hrest⟩ := h
  obtain ⟨rfl, rfl⟩ := List.append_inj (heq.trans hinput) (hheader.trans hlength.symm)
  exact ⟨hplain, s, t, rfl, hs, ht, hrest⟩

/-- What the counter has counted. -/
structure Counted (limits : Limits) (g : State e) : Prop where
  decoded : g.decoded = g.output.length
  cap : g.output.length ≤ limits.maxDecodedBytes
  crc : g.crc = Crc32.crc32 g.output

/-- **The header is not complete.** -/
structure BeforeHeader (limits : Limits) (input : Bytes) (g : State e) : Prop where
  headerDone : g.headerDone = false
  input : g.head ++ g.source.flatten = input
  short : g.head.length < 10
  compressed : g.compressed = g.head.length
  inflate : g.inflate = e.start
  trailer : g.trailer = []
  received : g.trailerReceived = none
  queue : g.queue = []
  output : g.output = []

/-- **The header is complete**, so much was written to the engine, and `more` was taken off the
source and is to be written. -/
structure AfterHeader (limits : Limits) (input : Bytes) (g : State e) (header : Bytes)
    (ws : List Bytes) (more : Bytes) : Prop where
  headerDone : g.headerDone = true
  input : header ++ (ws.flatten ++ (more ++ g.source.flatten)) = input
  length : header.length = 10
  plain : isPlainHeader header = true
  compressed : g.compressed = header.length + (ws.flatten.length + more.length)
  cap : g.compressed ≤ limits.maxCompressedBytes
  writes : ∀ w ∈ ws, w ≠ []
  fed : ∃ n out, e.feed e.start ws = some (g.inflate, n, out) ∧ g.trailer = ws.flatten.drop n ∧
    (g.trailerReceived = none ∧ out = g.output ++ g.queue.flatten ∨
      g.source = [] ∧ more = [] ∧ g.trailerReceived = some g.trailer ∧ g.trailer.length = 8 ∧
        ∃ last, e.finish g.inflate = some last ∧ out ++ last.flatten = g.output ++ g.queue.flatten)

/-- **What holds of every state.** -/
def Inv (deflates : Bytes → Bytes → Prop) (limits : Limits) (input : Bytes) (g : State e) : Prop :=
  match g.status with
  | .running => Counted limits g ∧
      (BeforeHeader limits input g ∨ ∃ header ws, AfterHeader limits input g header ws [])
  | .ended => IsMember deflates limits input g.output
  | .failed => ∀ d, ¬ IsMember deflates limits input d

theorem inv_fail {g : State e} (h : ∀ d, ¬ IsMember deflates limits input d) :
    Inv deflates limits input g.fail := h

theorem inv_of_before {g : State e} (hrunning : g.status = .running) (hcounted : Counted limits g)
    (h : BeforeHeader limits input g) : Inv deflates limits input g := by
  rw [Inv, hrunning]
  exact ⟨hcounted, .inl h⟩

theorem inv_of_after {g : State e} (hrunning : g.status = .running) (hcounted : Counted limits g)
    {header : Bytes} {ws : List Bytes} (h : AfterHeader limits input g header ws []) :
    Inv deflates limits input g := by
  rw [Inv, hrunning]
  exact ⟨hcounted, .inr ⟨header, ws, h⟩⟩

variable (hinflates : e.Inflates deflates)

include hinflates

/-- **What is written to the engine.** -/
theorem inv_writeBody {g : State e} {header : Bytes} {ws : List Bytes} {body : Bytes}
    (hrunning : g.status = .running) (hcounted : Counted limits g)
    (h : AfterHeader limits input g header ws body) (hreceived : g.trailerReceived = none) :
    Inv deflates limits input (writeBody g body) := by
  unfold writeBody
  by_cases hbody : body = []
  · rw [if_pos hbody]
    exact inv_of_after hrunning hcounted (hbody ▸ h)
  rw [if_neg hbody]
  have hws : ∀ w ∈ ws ++ [body], w ≠ [] := by
    intro w hw
    rcases List.mem_append.1 hw with hw | hw
    · exact h.writes w hw
    · rwa [List.mem_singleton.1 hw]
  have hflatten : (ws ++ [body]).flatten = ws.flatten ++ body := by simp
  have hinput : header ++ ((ws ++ [body]).flatten ++ g.source.flatten) = input := by
    rw [hflatten, List.append_assoc]
    exact h.input
  obtain ⟨n, out, hfeed, htrailer, hout⟩ := h.fed
  have hout : out = g.output ++ g.queue.flatten := by
    rcases hout with ⟨-, hout⟩ | ⟨-, -, hsome, -⟩
    · exact hout
    · rw [hreceived] at hsome
      cases hsome
  have hfeed' := feed_append (e := e) e.start ws body
  rw [hfeed, Option.bind_some] at hfeed'
  cases hwrite : e.write g.inflate body with
  | none =>
    rw [hwrite] at hfeed'
    refine inv_fail fun d hd => ?_
    obtain ⟨-, s, t, heq, hs, -⟩ := hd.split h.length hinput
    obtain ⟨st, out', hfed, -⟩ := hinflates.feed hws hs heq
    rw [hfeed'] at hfed
    cases hfed
  | some r =>
    obtain ⟨st, k, chunks⟩ := r
    rw [hwrite, Option.map_some] at hfeed'
    have hleft := hinflates.leftover h.writes hbody hfeed hfeed'
    rw [← htrailer] at hleft
    simp only [hleft]
    split_ifs with hlong
    · refine inv_fail fun d hd => ?_
      obtain ⟨-, s, t, heq, hs, ht, -⟩ := hd.split h.length hinput
      obtain ⟨st', out', hfed, -⟩ := hinflates.feed hws hs heq
      rw [hfeed'] at hfed
      have hk : n + k = min (ws ++ [body]).flatten.length s.length := by
        have := Option.some.inj hfed
        simp only [Prod.mk.injEq] at this
        exact this.2.1
      have hlength := congrArg List.length heq
      rw [List.length_append, List.length_append, ht] at hlength
      rw [List.length_drop] at hlong
      omega
    · refine inv_of_after hrunning ⟨hcounted.decoded, hcounted.cap, hcounted.crc⟩
        (?_ : AfterHeader limits input _ header (ws ++ [body]) [])
      refine ⟨h.headerDone, hinput, h.length, h.plain, ?_, h.cap, hws, n + k, _, hfeed', rfl,
        .inl ⟨hreceived, ?_⟩⟩
      · rw [h.compressed, hflatten, List.length_append, List.length_nil, Nat.add_zero]
      · show out ++ chunks.flatten = g.output ++ (g.queue ++ chunks).flatten
        rw [hout, List.flatten_append, List.append_assoc]

/-- **A chunk of the input.** -/
theorem inv_write {g : State e} {chunk : Bytes} {source : List Bytes} (h : Inv deflates limits input g)
    (hrunning : g.status = .running) (hsource : g.source = chunk :: source) :
    Inv deflates limits input (write limits { g with source } chunk) := by
  rw [Inv, hrunning] at h
  obtain ⟨hcounted, hbefore | ⟨header, ws, hafter⟩⟩ := h
  · have hinput : g.head ++ chunk ++ source.flatten = input := by
      have := hbefore.input
      rwa [hsource, List.flatten_cons, ← List.append_assoc] at this
    have hlength := congrArg List.length hinput
    rw [List.length_append, List.length_append] at hlength
    unfold write
    simp only [hbefore.headerDone, hbefore.compressed, Bool.false_eq_true, if_false]
    split_ifs with hcap hshort hplain
    · refine inv_fail fun d hd => ?_
      obtain ⟨_, _, _, _, _, _, _, _, _, _, hfits, _⟩ := hd
      omega
    · refine inv_of_before hrunning ⟨hcounted.decoded, hcounted.cap, hcounted.crc⟩ ?_
      exact ⟨rfl, hinput, hshort, (List.length_append ..).symm, hbefore.inflate,
        hbefore.trailer, hbefore.received, hbefore.queue, hbefore.output⟩
    · -- the first ten bytes are not those of a plain header
      have hten : ((g.head ++ chunk).take 10).length = 10 := by
        rw [List.length_take]
        omega
      have hsplit : (g.head ++ chunk).take 10 ++ ((g.head ++ chunk).drop 10 ++ source.flatten) =
          input := by
        rw [← List.append_assoc, List.take_append_drop, hinput]
      refine inv_fail fun d hd => ?_
      have hd := (hd.split hten hsplit).1
      rw [isPlainHeader, List.take_take, Nat.min_eq_left (by decide)] at hd
      rw [isPlainHeader, hd] at hplain
      cases hplain
    · have hten : ((g.head ++ chunk).take 10).length = 10 := by
        rw [List.length_take]
        omega
      rw [Bool.not_eq_true, Bool.not_eq_false'] at hplain
      refine inv_writeBody hinflates
        (g := { g with
          source, compressed := g.head.length + chunk.length, head := [], headerDone := true })
        hrunning ⟨hcounted.decoded, hcounted.cap, hcounted.crc⟩
        (?_ : AfterHeader limits input _ ((g.head ++ chunk).take 10) [] _) hbefore.received
      refine ⟨rfl, ?_, hten, ?_, ?_, not_lt.1 hcap, fun w hw => (nomatch hw), 0, [], ?_, ?_,
        .inl ⟨hbefore.received, ?_⟩⟩
      · show _ ++ (_ ++ (_ ++ source.flatten)) = input
        rw [List.flatten_nil, List.nil_append, ← List.append_assoc, List.take_append_drop, hinput]
      · rw [isPlainHeader, List.take_take]
        exact hplain
      · show g.head.length + chunk.length = _ + (_ + ((g.head ++ chunk).drop 10).length)
        rw [hten, List.length_drop, List.length_append, List.flatten_nil, List.length_nil]
        rw [List.length_append] at hshort
        omega
      · show e.feed e.start [] = some (g.inflate, 0, [])
        rw [hbefore.inflate]
        rfl
      · exact hbefore.trailer
      · show [] = g.output ++ g.queue.flatten
        rw [hbefore.output, hbefore.queue]
        rfl
  · have hreceived : g.trailerReceived = none := by
      obtain ⟨n, out, -, -, hout⟩ := hafter.fed
      rcases hout with ⟨hnone, -⟩ | ⟨hnil, -⟩
      · exact hnone
      · rw [hsource] at hnil
        cases hnil
    have hinput : header ++ (ws.flatten ++ (chunk ++ source.flatten)) = input := by
      have := hafter.input
      rwa [hsource, List.flatten_cons, List.nil_append] at this
    have hlength := congrArg List.length hinput
    rw [List.length_append, List.length_append, List.length_append] at hlength
    have hcompressed := hafter.compressed
    rw [List.length_nil, Nat.add_zero] at hcompressed
    unfold write
    simp only [hafter.headerDone, if_true]
    split_ifs with hcap
    · refine inv_fail fun d hd => ?_
      obtain ⟨_, _, _, _, _, _, _, _, _, _, hfits, _⟩ := hd
      omega
    · obtain ⟨n, out, hfeed, htrailer, hout⟩ := hafter.fed
      have hout : out = g.output ++ g.queue.flatten := by
        rcases hout with ⟨-, hout⟩ | ⟨hnil, -⟩
        · exact hout
        · rw [hsource] at hnil
          cases hnil
      refine inv_writeBody hinflates
        (g := { g with source, compressed := g.compressed + chunk.length, headerDone := true })
        hrunning ⟨hcounted.decoded, hcounted.cap, hcounted.crc⟩
        (?_ : AfterHeader limits input _ header ws chunk) hreceived
      refine ⟨rfl, hinput, hafter.length, hafter.plain, ?_, not_lt.1 hcap,
        hafter.writes, n, out, hfeed, htrailer, .inl ⟨hreceived, hout⟩⟩
      show g.compressed + chunk.length = header.length + (ws.flatten.length + chunk.length)
      omega

/-- **The end of the input.** -/
theorem inv_final {g : State e} (h : Inv deflates limits input g) (hrunning : g.status = .running)
    (hsource : g.source = []) (hreceived : g.trailerReceived = none) :
    Inv deflates limits input (final g) := by
  rw [Inv, hrunning] at h
  obtain ⟨hcounted, hbefore | ⟨header, ws, hafter⟩⟩ := h
  · -- there is no whole header
    unfold final
    rw [hbefore.headerDone, Bool.not_false, if_pos rfl]
    refine inv_fail fun d hd => ?_
    obtain ⟨header, s, t, heq, hten, -⟩ := hd
    have hlength := congrArg List.length hbefore.input
    rw [heq, hsource, List.length_append, List.length_append, List.flatten_nil, List.length_nil,
      hten] at hlength
    have := hbefore.short
    omega
  · have hinput : header ++ ws.flatten = input := by
      have := hafter.input
      rwa [hsource, List.flatten_nil, List.nil_append, List.append_nil] at this
    obtain ⟨n, out, hfeed, htrailer, hout⟩ := hafter.fed
    have hout : out = g.output ++ g.queue.flatten := by
      rcases hout with ⟨-, hout⟩ | ⟨-, -, hsome, -⟩
      · exact hout
      · rw [hreceived] at hsome
        cases hsome
    have hmember : ∀ d, IsMember deflates limits input d → ∃ last,
        e.finish g.inflate = some last ∧ g.trailer.length = 8 := by
      intro d hd
      obtain ⟨-, s, t, heq, hs, ht, -⟩ := hd.split hafter.length hinput
      have hwhole : ws.flatten ++ [] = s ++ t := by rw [List.append_nil, heq]
      obtain ⟨st, out', hfed, -, hlast⟩ := hinflates.feed hafter.writes hs hwhole
      rw [hfeed] at hfed
      obtain ⟨rfl, hn, -⟩ : g.inflate = st ∧ n = min ws.flatten.length s.length ∧ out = out' := by
        simpa using hfed
      obtain ⟨last, hfinish, -⟩ := hlast rfl
      refine ⟨last, hfinish, ?_⟩
      have hlength := congrArg List.length heq
      rw [List.length_append, ht] at hlength
      rw [htrailer, List.length_drop]
      omega
    unfold final
    rw [hafter.headerDone, Bool.not_true, if_neg Bool.false_ne_true]
    cases hfinish : e.finish g.inflate with
    | none =>
      refine inv_fail fun d hd => ?_
      obtain ⟨last, hlast, -⟩ := hmember d hd
      rw [hfinish] at hlast
      cases hlast
    | some chunks =>
      simp only
      split_ifs with height
      · refine inv_fail fun d hd => ?_
        obtain ⟨-, -, hgood⟩ := hmember d hd
        exact height hgood
      · rw [not_not] at height
        refine inv_of_after hrunning ⟨hcounted.decoded, hcounted.cap, hcounted.crc⟩
          (?_ : AfterHeader limits input _ header ws [])
        refine ⟨rfl, hafter.input, hafter.length, hafter.plain, hafter.compressed, hafter.cap,
          hafter.writes, n, out, hfeed, htrailer,
          .inr ⟨hsource, rfl, rfl, height, chunks, hfinish, ?_⟩⟩
        show out ++ chunks.flatten = g.output ++ (g.queue ++ chunks).flatten
        rw [hout, List.flatten_append, List.append_assoc]

/-- **What is given out of a member** is the beginning of what it decodes to, and after the end of
the input it is all of that. -/
theorem given_of_member {g : State e} {header : Bytes} {ws : List Bytes} {d : Bytes}
    (hafter : AfterHeader limits input g header ws []) (hd : IsMember deflates limits input d) :
    g.output ++ g.queue.flatten <+: d ∧
      (g.trailerReceived ≠ none → g.output ++ g.queue.flatten = d ∧ g.trailer.length = 8 ∧
        readUInt32LE g.trailer 0 = (Crc32.crc32 d).toNat ∧
          readUInt32LE g.trailer 4 = d.length % 2 ^ 32) := by
  have hinput : header ++ (ws.flatten ++ g.source.flatten) = input := hafter.input
  obtain ⟨-, s, t, heq, hs, ht, hcrc, hsize, -⟩ := hd.split hafter.length hinput
  obtain ⟨st, out', hfed, hbegins, hlast⟩ := hinflates.feed hafter.writes hs heq
  obtain ⟨n, out, hfeed, htrailer, hout⟩ := hafter.fed
  rw [hfeed] at hfed
  obtain ⟨rfl, hn, rfl⟩ :
      g.inflate = st ∧ n = min ws.flatten.length s.length ∧ out = out' := by simpa using hfed
  rcases hout with ⟨hnone, rfl⟩ | ⟨hsource, -, hsome, -, last, hfinish, hall⟩
  · exact ⟨hbegins, fun hsome => absurd hnone hsome⟩
  · obtain ⟨last', hfinish', hd⟩ := hlast (by rw [hsource]; rfl)
    rw [hfinish] at hfinish'
    obtain rfl := Option.some.inj hfinish'
    rw [hsource, List.flatten_nil, List.append_nil] at heq
    have hrest : g.trailer = t := by
      rw [htrailer, hn, heq, List.length_append, min_eq_right (Nat.le_add_right _ _),
        List.drop_left]
    rw [← hall, hd, hrest]
    exact ⟨List.prefix_rfl, fun _ => ⟨rfl, ht, hcrc, hsize⟩⟩

/-- **A chunk of the output.** -/
theorem inv_count {g : State e} {chunk : Bytes} {queue : List Bytes}
    (h : Inv deflates limits input g) (hrunning : g.status = .running)
    (hqueue : g.queue = chunk :: queue) :
    Inv deflates limits input (count limits { g with queue } chunk) := by
  rw [Inv, hrunning] at h
  obtain ⟨hcounted, hbefore | ⟨header, ws, hafter⟩⟩ := h
  · have hnil := hbefore.queue
    rw [hqueue] at hnil
    cases hnil
  unfold count
  simp only
  split_ifs with hcap
  · refine inv_fail fun d hd => ?_
    have hbegins := (given_of_member hinflates hafter hd).1.length_le
    obtain ⟨_, _, _, _, _, _, _, _, _, _, _, hfits⟩ := hd
    rw [hqueue, List.flatten_cons, List.length_append, List.length_append] at hbegins
    rw [hcounted.decoded] at hcap
    omega
  · rw [hcounted.decoded] at hcap
    refine inv_of_after hrunning ⟨?_, ?_, ?_⟩ (?_ : AfterHeader limits input _ header ws [])
    · rw [hcounted.decoded, List.length_append]
    · rw [List.length_append]
      exact not_lt.1 hcap
    · rw [hcounted.crc, crc32Update_crc32]
    · obtain ⟨n, out, hfeed, htrailer, hout⟩ := hafter.fed
      rw [hqueue, List.flatten_cons, ← List.append_assoc] at hout
      exact ⟨hafter.headerDone, hafter.input, hafter.length, hafter.plain, hafter.compressed,
        hafter.cap, hafter.writes, n, out, hfeed, htrailer, hout⟩

/-- **The end of the output.** -/
theorem inv_flush {g : State e} {t : Bytes} (h : Inv deflates limits input g)
    (hrunning : g.status = .running) (hqueue : g.queue = [])
    (hreceived : g.trailerReceived = some t) :
    Inv deflates limits input (flush g t) := by
  rw [Inv, hrunning] at h
  obtain ⟨hcounted, hbefore | ⟨header, ws, hafter⟩⟩ := h
  · have hnone := hbefore.received
    rw [hreceived] at hnone
    cases hnone
  obtain ⟨n, out, hfeed, htrailer, hout⟩ := hafter.fed
  rcases hout with ⟨hnone, -⟩ | ⟨hsource, -, hsome, height, last, hfinish, hall⟩
  · rw [hreceived] at hnone
    cases hnone
  obtain rfl : t = g.trailer := Option.some.inj (hreceived.symm.trans hsome)
  rw [hqueue, List.flatten_nil, List.append_nil] at hall
  have hmember : ∀ d, IsMember deflates limits input d →
      readUInt32LE g.trailer 0 = g.crc.toNat ∧ readUInt32LE g.trailer 4 = g.decoded % 2 ^ 32 := by
    intro d hd
    obtain ⟨hd, -, hcrc, hsize⟩ := (given_of_member hinflates hafter hd).2 (by
      rw [hreceived]
      exact Option.some_ne_none _)
    rw [hqueue, List.flatten_nil, List.append_nil] at hd
    rw [hcounted.crc, hcounted.decoded, hd]
    exact ⟨hcrc, hsize⟩
  unfold flush
  split_ifs with hcrc hsize
  · exact inv_fail fun d hd => hcrc (hmember d hd).1
  · exact inv_fail fun d hd => hsize (hmember d hd).2
  · rw [not_not] at hcrc hsize
    -- the engine has ended, so a whole stream was written to it
    rcases hinflates.consumed hafter.writes hfeed with
      ⟨s, d, hs, ⟨more, hmore⟩, rfl, last', hfinish', hd⟩ | ⟨-, -, hnone⟩
    · rw [hfinish] at hfinish'
      obtain rfl := Option.some.inj hfinish'
      rw [hall] at hd
      have hrest : g.trailer = more := by rw [htrailer, ← hmore, List.drop_left]
      have hinput : header ++ (s ++ more) = input := by
        have := hafter.input
        rwa [hsource, List.flatten_nil, List.nil_append, List.append_nil, ← hmore] at this
      rw [hrest] at height hcrc hsize
      refine ⟨header, s, more, hinput.symm, hafter.length, hafter.plain, ?_, height, ?_, ?_, ?_,
        hcounted.cap⟩
      · rw [show g.output = d from hd]
        exact hs
      · rw [hcrc, hcounted.crc]
      · rw [hsize, hcounted.decoded]
      · have hfits := hafter.cap
        have hlength := congrArg List.length hinput
        rw [hafter.compressed, ← hmore, List.length_append, List.length_nil] at hfits
        rw [List.length_append, List.length_append] at hlength
        omega
    · rw [hfinish] at hnone
      cases hnone

/-- **Every state of every run.** -/
theorem inv_of_reach {chunks : List Bytes} {g : State e}
    (h : (machine e limits chunks).Reach (fun _ _ => True) g) :
    Inv deflates limits chunks.flatten g := by
  refine h.invariant (fun g hg => ?_) fun g a g' hinv _ hnext => ?_
  · obtain rfl := hg
    refine inv_of_before rfl ⟨rfl, Nat.zero_le _, ?_⟩
      ⟨rfl, rfl, Nat.succ_pos 9, rfl, rfl, rfl, rfl, rfl, rfl⟩
    rw [Crc32.crc32, List.foldl_nil, BitVec.not_allOnes]
    rfl
  · simp only [machine] at hnext
    split_ifs at hnext with hrunning
    cases a with
    | write =>
      simp only [act] at hnext
      split at hnext
      · cases hnext
      · rename_i chunk source hsource
        obtain rfl := Option.some.inj hnext
        exact inv_write hinflates hinv hrunning hsource
    | final =>
      simp only [act] at hnext
      split_ifs at hnext with hend
      obtain rfl := Option.some.inj hnext
      exact inv_final hinflates hinv hrunning hend.1 hend.2
    | count =>
      simp only [act] at hnext
      split at hnext
      · cases hnext
      · rename_i chunk queue hqueue
        obtain rfl := Option.some.inj hnext
        exact inv_count hinflates hinv hrunning hqueue
    | flush =>
      simp only [act] at hnext
      split at hnext
      · rename_i t hqueue hreceived
        obtain rfl := Option.some.inj hnext
        exact inv_flush hinflates hinv hrunning hqueue hreceived
      · cases hnext

end Run

/-! ### The end of a run -/

section Stuck

variable {e : Engine} {limits : Limits} {chunks : List Bytes}

/-- What is still to be done: whether it goes on, the chunks of the input and its end, and the
chunks of the output. -/
def weight (g : State e) : ℕ × ℕ × ℕ :=
  (if g.status = .running then 1 else 0,
    g.source.length + (if g.trailerReceived = none then 1 else 0), g.queue.length)

/-- Less is still to be done. -/
def Less (g' g : State e) : Prop :=
  Prod.Lex (· < ·) (Prod.Lex (· < ·) (· < ·)) (weight g') (weight g)

theorem wellFounded_less : WellFounded (Less (e := e)) :=
  InvImage.wf weight (WellFounded.prod_lex Nat.lt_wfRel.wf
    (WellFounded.prod_lex Nat.lt_wfRel.wf Nat.lt_wfRel.wf))

theorem less_of_stopped {g' g : State e} (hrunning : g.status = .running)
    (h : g'.status ≠ .running) : Less g' g := by
  refine Prod.lex_def.2 (.inl ?_)
  show (if g'.status = .running then 1 else 0) < if g.status = .running then 1 else 0
  rw [if_neg h, if_pos hrunning]
  exact Nat.one_pos

theorem less_of_input {g' g : State e} (hrunning : g.status = .running)
    (h : g'.source.length + (if g'.trailerReceived = none then 1 else 0) <
      g.source.length + if g.trailerReceived = none then 1 else 0) : Less g' g := by
  by_cases hstopped : g'.status = .running
  · refine Prod.lex_def.2 (.inr ⟨?_, Prod.lex_def.2 (.inl h)⟩)
    show (if g'.status = .running then 1 else 0) = if g.status = .running then 1 else 0
    rw [hstopped, hrunning]
  · exact less_of_stopped hrunning hstopped

theorem writeBody_input (g : State e) (body : Bytes) :
    (writeBody g body).source = g.source ∧
      (writeBody g body).trailerReceived = g.trailerReceived := by
  unfold writeBody
  split_ifs
  · exact ⟨rfl, rfl⟩
  · split
    · exact ⟨rfl, rfl⟩
    · simp only
      split_ifs <;> exact ⟨rfl, rfl⟩

theorem write_input (g : State e) (chunk : Bytes) :
    (write limits g chunk).source = g.source ∧
      (write limits g chunk).trailerReceived = g.trailerReceived := by
  unfold write
  simp only
  split_ifs
  · exact ⟨rfl, rfl⟩
  · exact writeBody_input _ _
  · exact ⟨rfl, rfl⟩
  · exact ⟨rfl, rfl⟩
  · exact writeBody_input _ _

/-- **Each action leaves less to be done.** -/
theorem less_of_next {g g' : State e} {a : Action}
    (h : (machine e limits chunks).next g a = some g') : Less g' g := by
  simp only [machine] at h
  split_ifs at h with hrunning
  cases a with
  | write =>
    simp only [act] at h
    split at h
    · cases h
    · rename_i chunk source hsource
      obtain rfl := Option.some.inj h
      obtain ⟨hrest, hreceived⟩ := @write_input e limits { g with source } chunk
      refine less_of_input hrunning ?_
      rw [hrest, hreceived, hsource, List.length_cons]
      show source.length + (if g.trailerReceived = none then 1 else 0) <
        source.length + 1 + if g.trailerReceived = none then 1 else 0
      omega
  | final =>
    simp only [act] at h
    split_ifs at h with hend
    obtain rfl := Option.some.inj h
    unfold final
    split_ifs
    · exact less_of_stopped hrunning (by rintro ⟨⟩)
    · split <;> exact less_of_stopped hrunning (by rintro ⟨⟩)
    · split
      · exact less_of_stopped hrunning (by rintro ⟨⟩)
      · refine less_of_input hrunning ?_
        rw [hend.2, if_pos rfl]
        exact Nat.lt_succ_self _
  | count =>
    simp only [act] at h
    split at h
    · cases h
    · rename_i chunk queue hqueue
      obtain rfl := Option.some.inj h
      unfold count
      simp only
      split_ifs
      · exact less_of_stopped hrunning (by rintro ⟨⟩)
      · refine Prod.lex_def.2 (.inr ⟨rfl, Prod.lex_def.2 (.inr ⟨rfl, ?_⟩)⟩)
        show queue.length < g.queue.length
        rw [hqueue]
        exact Nat.lt_succ_self _
  | flush =>
    simp only [act] at h
    split at h
    · obtain rfl := Option.some.inj h
      unfold flush
      split_ifs <;> exact less_of_stopped hrunning (by rintro ⟨⟩)
    · cases h

/-- **While neither side has stopped there is something to do.** -/
theorem not_running_of_stuck {g : State e} (h : (machine e limits chunks).Stuck g) :
    g.status ≠ .running := by
  intro hrunning
  have hact : ∀ a, act limits g a = none := fun a => by
    have hnone := h a
    simp only [machine] at hnone
    rwa [if_pos hrunning] at hnone
  cases hsource : g.source with
  | cons chunk source =>
    have := hact .write
    simp [act, hsource] at this
  | nil =>
    cases hreceived : g.trailerReceived with
    | none =>
      have := hact .final
      simp [act, hsource, hreceived] at this
    | some t =>
      cases hqueue : g.queue with
      | nil =>
        have := hact .flush
        simp [act, hqueue, hreceived] at this
      | cons chunk queue =>
        have := hact .count
        simp [act, hqueue] at this

end Stuck

/-- **The output ends just where the input is one member.**  However the input is cut and whatever
order the two sides go on in: a run that has come to its end has ended without an error just if the
input is one member within both caps, and its output is then what the member decodes to.  Every run
comes to its end. -/
theorem strictGunzip_ends_iff {e : Engine} {deflates : Bytes → Bytes → Prop}
    (hinflates : e.Inflates deflates) (limits : Limits) (chunks : List Bytes) {g : State e}
    (h : (machine e limits chunks).Reach (fun _ _ => True) g) :
    ((machine e limits chunks).Stuck g →
      (g.status = .ended ↔ ∃ d, IsMember deflates limits chunks.flatten d) ∧
      (g.status = .ended → IsMember deflates limits chunks.flatten g.output)) ∧
    ∃ as g', (machine e limits chunks).exec g as = some g' ∧
      (machine e limits chunks).Stuck g' := by
  refine ⟨fun hstuck => ?_, Machine.exists_stuck wellFounded_less (fun _ _ _ => less_of_next) g⟩
  have hinv := inv_of_reach hinflates h
  have hended : g.status = .ended → IsMember deflates limits chunks.flatten g.output := by
    intro hended
    rwa [Inv, hended] at hinv
  refine ⟨⟨fun hend => ⟨_, hended hend⟩, ?_⟩, hended⟩
  rintro ⟨d, hd⟩
  cases hstatus : g.status with
  | running => exact absurd hstatus (not_running_of_stuck hstuck)
  | ended => rfl
  | failed =>
    rw [Inv, hstatus] at hinv
    exact absurd hd (hinv d)

/-- Two bytes in a stored block, cut within the header, the block and the trailer. -/
def storedChunks : List Bytes :=
  [[0x1f, 0x8b, 8, 0, 0, 0], [0, 0, 0, 3, 1, 2, 0, 0xfd], [0xff, 104, 105, 0xac, 0x2a],
    [0x93, 0xd8, 2, 0, 0, 0]]

theorem strictGunzip_ends_iff_stored :
    ∃ g, (machine storedEngine ⟨64, 64⟩ storedChunks).Reach (fun _ _ => True) g ∧
      g.status = .ended ∧ g.output = [104, 105] ∧
      IsMember Stored ⟨64, 64⟩ storedChunks.flatten g.output := by
  obtain ⟨g, hg, hdone⟩ := Machine.exists_reach_of_exec
    (machine storedEngine ⟨64, 64⟩ storedChunks) { source := storedChunks, inflate := [] }
    [.write, .write, .write, .count, .write, .final, .flush]
    (fun g => g.status = .ended && g.output = [104, 105]) rfl
    (Machine.along_of_forall (fun _ _ => trivial) _ _) (by decide +kernel)
  simp only [Bool.and_eq_true, decide_eq_true_eq] at hdone
  have hstuck : (machine storedEngine ⟨64, 64⟩ storedChunks).Stuck g := by
    intro a
    simp only [machine, hdone.1]
    rfl
  have hends := strictGunzip_ends_iff storedEngine_inflates ⟨64, 64⟩ storedChunks hg
  exact ⟨g, hg, hdone.1, hdone.2, (hends.1 hstuck).2 hdone.1⟩

end Gunzip
end Stream
end LaneBroker
