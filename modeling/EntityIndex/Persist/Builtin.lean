import EntityIndex.Persist.Frame
import EntityIndex.Persist.Lz4
import EntityIndex.Persist.Zstd.Compress
import EntityIndex.Persist.Zstd.Frame
import EntityIndex.Json.Print
import EntityIndex.Json.Parse

/-!
# The libraries this library brings

Stores and frames are given their JSON and compression libraries. Unless given others they use
the ones here. Both codecs write a document with `render`, escaping `<`, `>` and `&`; `json`
reads strictly, and `go-json` takes loose numbers, raw control characters in strings, and a NUL
byte as the end of the payload. LZ4 blocks come from `Lz4` and Zstandard frames from `Zstd`,
whose writer keeps literals raw, so its frames are larger than those of an entropy-coding
writer.
-/

namespace EntityIndex

open EntityIndex.Json

/-- The JSON libraries of this library: one writer, and a strict and a lenient reader. -/
def JsonLibraries.builtin : JsonLibraries where
  json := ⟨fun v => (render true v).toUTF8.toList, parse .strict⟩
  goJson := ⟨fun v => (render true v).toUTF8.toList, parse ⟨true, true, true⟩⟩

/-- The compressors of this library. A Zstandard frame records its content size, so its reader
needs no length. -/
def Compressors.builtin : Compressors where
  lz4 := ⟨Lz4.compress, Lz4.decompress⟩
  zstd := ⟨Zstd.compress, fun payload _ => Zstd.decompress payload⟩

end EntityIndex
