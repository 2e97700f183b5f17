import Arbor.Image

/-! # Images as PNG files

A file is a signature and three chunks: the size of the image, its rows and an end mark. The
rows are stored without compression.
-/

namespace Arbor.Png

/-- Four bytes of a number, the highest first. -/
def bytes32 (n : UInt32) : List UInt8 :=
  [(n >>> 24).toUInt8, (n >>> 16).toUInt8, (n >>> 8).toUInt8, n.toUInt8]

/-- Two bytes of a number, the lowest first. -/
def bytes16 (n : UInt16) : List UInt8 := [n.toUInt8, (n >>> 8).toUInt8]

def append (out : ByteArray) (bytes : List UInt8) : ByteArray := bytes.foldl ByteArray.push out

/-! ## Checksums -/

/-- One bit of the division behind a cyclic redundancy check. -/
def crcShift (c : UInt32) : UInt32 :=
  if c &&& 1 = 1 then (c >>> 1) ^^^ 0xedb88320 else c >>> 1

def crcTable : Array UInt32 :=
  Array.ofFn fun i : Fin 256 => (List.range 8).foldl (fun c _ => crcShift c) i.val.toUInt32

def crcByte (c : UInt32) (b : UInt8) : UInt32 :=
  crcTable.getD (c ^^^ b.toUInt32).toUInt8.toNat 0 ^^^ (c >>> 8)

def crc (bytes : ByteArray) : UInt32 := bytes.foldl crcByte 0xffffffff ^^^ 0xffffffff

/-- The check sum of uncompressed data: the sum of all bytes and the sum of all such sums. -/
def adler (bytes : ByteArray) : UInt32 :=
  let (a, b) := bytes.foldl (fun (a, b) x =>
    let a := (a + x.toUInt32) % 65521
    (a, (b + a) % 65521)) ((1 : UInt32), (0 : UInt32))
  (b <<< 16) ||| a

/-! ## Parts of a file -/

/-- A chunk: its length, its name, its data and the check of both. -/
def chunk (name : String) (data : ByteArray) : ByteArray :=
  let body := name.toUTF8 ++ data
  append (append .empty (bytes32 data.size.toUInt32) ++ body) (bytes32 (crc body))

/-- The data of an image: each row after a zero, which says that it is not filtered. -/
def rowData (img : Image) : ByteArray :=
  img.rows.foldl (fun out row =>
    row.foldl (fun out p => (((out.push p.r).push p.g).push p.b).push p.alpha) (out.push 0)) .empty

def blockSize : Nat := 65535

/-- Data in stored blocks, of which `left` are still to come. -/
def storedBlocks (data out : ByteArray) (start : Nat) : (left : Nat) → ByteArray
  | 0 => out
  | left + 1 =>
    let block := data.extract start (start + blockSize)
    let size := block.size.toUInt16
    let head := (if left = 0 then 1 else 0) :: (bytes16 size ++ bytes16 (size ^^^ 0xffff))
    storedBlocks data (append out head ++ block) (start + blockSize) left

def stored (data : ByteArray) : ByteArray :=
  let blocks := max 1 ((data.size + (blockSize - 1)) / blockSize)
  append (storedBlocks data (append .empty [0x78, 0x01]) 0 blocks) (bytes32 (adler data))

/-- The file of an image: eight bits for each of four channels. -/
def encode (img : Image) : ByteArray :=
  let header := append .empty
    (bytes32 img.width.toUInt32 ++ bytes32 img.height.toUInt32 ++ [8, 6, 0, 0, 0])
  append .empty [0x89, 0x50, 0x4e, 0x47, 0x0d, 0x0a, 0x1a, 0x0a] ++
    chunk "IHDR" header ++ chunk "IDAT" (stored (rowData img)) ++ chunk "IEND" .empty

end Arbor.Png
