import Mathlib

/-! The MCP bridge reads a response of the API chunk by chunk, up to a limit (`honey-mcp.rs`).

        chunks --> buffer --> the first `max_response_bytes` bytes of the body, and whether it is longer
                     ^
        announced length: what is reserved

    Neither the ends of the chunks nor the announced length make a difference. -/

namespace Honey.Master
open List

/-- The announced length of a response, and the chunks that the HTTP layer hands out. -/
structure HttpResponse where
  contentLength : Option ℕ
  chunks : List (Except String (List UInt8))

/-- A `Vec<u8>`: the room that is reserved, and the bytes. -/
structure Buffer where
  capacity : ℕ
  bytes : List UInt8

/-- `extend_from_slice`, which reserves more where it has to. -/
def Buffer.extend (b : Buffer) (slice : List UInt8) : Buffer :=
  ⟨max b.capacity (b.bytes.length + slice.length), b.bytes ++ slice⟩

/-- The loop of `HoneyMcp::request`: the bytes kept, and whether some were cut off. -/
def readChunks (maxResponseBytes : ℕ) : List (Except String (List UInt8)) → Buffer → Except String (List UInt8 × Bool)
  | [], b => .ok (b.bytes, false)
  | .error e :: _, _ => .error ("could not read Honey response: " ++ e)
  | .ok chunk :: chunks, b =>
    let remaining := maxResponseBytes - b.bytes.length
    if remaining < chunk.length then .ok ((b.extend (chunk.take remaining)).bytes, true)
    else readChunks maxResponseBytes chunks (b.extend chunk)

def readBody (maxResponseBytes : ℕ) (response : HttpResponse) : Except String (List UInt8 × Bool) :=
  readChunks maxResponseBytes response.chunks ⟨min (response.contentLength.getD 0) maxResponseBytes, []⟩

-- by induction on the chunks, for every buffer that is within the limit
theorem readChunks_append {n : ℕ} : ∀ (chunks : List (List UInt8)) {b : Buffer}, b.bytes.length ≤ n →
    readChunks n (chunks.map .ok) b =
      .ok ((b.bytes ++ chunks.flatten).take n, decide (n < (b.bytes ++ chunks.flatten).length))
  | [], b, h => by simp [readChunks, take_of_length_le h, h]
  | chunk :: chunks, b, h => by
    rw [map_cons, readChunks]
    split
    · rename_i hcut
      have hlong : n < (b.bytes ++ (chunk :: chunks).flatten).length := by
        simp only [length_append, flatten_cons]
        omega
      rw [decide_eq_true hlong, take_append, take_of_length_le h, flatten_cons, take_append_of_le_length hcut.le]
      rfl
    · have hfits : (b.extend chunk).bytes.length ≤ n := by
        rw [Buffer.extend, length_append]
        omega
      rw [readChunks_append chunks hfits, Buffer.extend, append_assoc, flatten_cons]

/-- The bridge returns the first bytes of the body, and says whether there are more, for every way to split it and
    every announced length. -/
theorem readBody_chunks (n : ℕ) (contentLength : Option ℕ) (chunks : List (List UInt8)) :
    readBody n ⟨contentLength, chunks.map .ok⟩ = .ok (chunks.flatten.take n, decide (n < chunks.flatten.length)) :=
  readChunks_append chunks (Nat.zero_le n)

end Honey.Master
