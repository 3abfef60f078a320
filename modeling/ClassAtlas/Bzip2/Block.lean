import ClassAtlas.Archive.Crc32
import ClassAtlas.Bzip2.Code

/-!
A block of bzip2. Its bytes are the last column of the sorted table of all rotations of the
content, with the row that the content has in it; a byte is told by how many others have occurred
since it did. Runs of one byte are shortened before that and after it.
-/

namespace ClassAtlas.Bzip2

open Compression

-- The bytes in use, the latest first, the column so far, and how often the first byte is repeated
-- now; what the next digit of that number is worth.
structure Column where
  front : List UInt8
  sofar : Array UInt8 := #[]
  run : Nat := 0
  worth : Nat := 1

namespace Column

def settle? (limit : Nat) (c : Column) : Option Column :=
  if limit < c.sofar.size + c.run then none
  else some { c with
    sofar := c.sofar ++ Array.replicate c.run (c.front.headD 0)
    run := 0
    worth := 1 }

def put? (limit rank : Nat) (c : Column) : Option Column :=
  match c.front[rank]? with
  | none => none
  | some b =>
    if limit ≤ c.sofar.size then none
    else some { c with front := b :: c.front.eraseIdx rank, sofar := c.sofar.push b }

-- Far more than a block can hold.
def endless : Nat := 0x200000

-- A symbol is read with each code. The first two are digits of a run, and the last is the end.
def read (limit last : Nat) : List Code → Column → Reader Bits (Array UInt8)
  | [], _ => Reader.stop .corrupt
  | code :: codes, c => do
    let symbol ← code.read
    if symbol < 2 then
      Reader.ensure (c.worth < endless)
      read limit last codes { c with run := c.run + (symbol + 1) * c.worth, worth := 2 * c.worth }
    else
      let c ← Reader.orCorrupt (c.settle? limit)
      if symbol = last then return c.sofar
      else read limit last codes (← Reader.orCorrupt (c.put? limit (symbol - 1)))

theorem consumes_read (limit last : Nat) (codes : List Code) (c : Column) :
    Reader.Consumes (read limit last codes c) := by
  induction codes generalizing c with
  | nil => exact Reader.consumes_stop _
  | cons code codes ih =>
    refine Reader.consumes_bind code.shortens_read.consumes fun symbol => ?_
    split
    · exact Reader.consumes_bind (Reader.consumes_ensure _) fun _ => ih _
    · refine Reader.consumes_bind (Reader.consumes_or_corrupt _) fun c => ?_
      split
      · exact Reader.consumes_pure _
      · exact Reader.consumes_bind (Reader.consumes_or_corrupt _) fun c => ih _

end Column

-- The first column is the last one sorted; equal bytes keep their order.
def successors (column : Array UInt8) : Array Nat :=
  ((column.toList.zipIdx.mergeSort fun a b => a.1 ≤ b.1).map (·.2)).toArray

def follow (column : Array UInt8) (next : Array Nat) :
    (count place : Nat) → Array UInt8 → Array UInt8
  | 0, _, output => output
  | count + 1, place, output =>
    follow column next count (next.getD place 0) (output.push (column.getD place 0))

def rowOf (column : Array UInt8) (row : Nat) : Array UInt8 :=
  let next := successors column
  follow column next column.size (next.getD row 0) #[]

/-! Blocks that were disturbed for the sake of the sorting: the lowest bit of some bytes is wrong,
of the last but one in each stretch. -/

def stretches : Array Nat :=
  #[619, 720, 127, 481, 931, 816, 813, 233, 566, 247, 985, 724, 205, 454, 863, 491, 741, 242,
    949, 214, 733, 859, 335, 708, 621, 574, 73, 654, 730, 472, 419, 436, 278, 496, 867, 210, 399,
    680, 480, 51, 878, 465, 811, 169, 869, 675, 611, 697, 867, 561, 862, 687, 507, 283, 482, 129,
    807, 591, 733, 623, 150, 238, 59, 379, 684, 877, 625, 169, 643, 105, 170, 607, 520, 932, 727,
    476, 693, 425, 174, 647, 73, 122, 335, 530, 442, 853, 695, 249, 445, 515, 909, 545, 703, 919,
    874, 474, 882, 500, 594, 612, 641, 801, 220, 162, 819, 984, 589, 513, 495, 799, 161, 604,
    958, 533, 221, 400, 386, 867, 600, 782, 382, 596, 414, 171, 516, 375, 682, 485, 911, 276, 98,
    553, 163, 354, 666, 933, 424, 341, 533, 870, 227, 730, 475, 186, 263, 647, 537, 686, 600,
    224, 469, 68, 770, 919, 190, 373, 294, 822, 808, 206, 184, 943, 795, 384, 383, 461, 404, 758,
    839, 887, 715, 67, 618, 276, 204, 918, 873, 777, 604, 560, 951, 160, 578, 722, 79, 804, 96,
    409, 713, 940, 652, 934, 970, 447, 318, 353, 859, 672, 112, 785, 645, 863, 803, 350, 139, 93,
    354, 99, 820, 908, 609, 772, 154, 274, 580, 184, 79, 626, 630, 742, 653, 282, 762, 623, 680,
    81, 927, 626, 789, 125, 411, 521, 938, 300, 821, 78, 343, 175, 128, 250, 170, 774, 972, 275,
    999, 639, 495, 78, 352, 126, 857, 956, 358, 619, 580, 124, 737, 594, 701, 612, 669, 112, 134,
    694, 363, 992, 809, 743, 168, 974, 944, 375, 748, 52, 600, 747, 642, 182, 862, 81, 344, 805,
    988, 739, 511, 655, 814, 334, 249, 515, 897, 955, 664, 981, 649, 113, 974, 459, 893, 228,
    433, 837, 553, 268, 926, 240, 102, 654, 459, 51, 686, 754, 806, 760, 493, 403, 415, 394, 687,
    700, 946, 670, 656, 610, 738, 392, 760, 799, 887, 653, 978, 321, 576, 617, 626, 502, 894,
    679, 243, 440, 680, 879, 194, 572, 640, 724, 926, 56, 204, 700, 707, 151, 457, 449, 797, 195,
    791, 558, 945, 679, 297, 59, 87, 824, 713, 663, 412, 693, 342, 606, 134, 108, 571, 364, 631,
    212, 174, 643, 304, 329, 343, 97, 430, 751, 497, 314, 983, 374, 822, 928, 140, 206, 73, 263,
    980, 736, 876, 478, 430, 305, 170, 514, 364, 692, 829, 82, 855, 953, 676, 246, 369, 970, 294,
    750, 807, 827, 150, 790, 288, 923, 804, 378, 215, 828, 592, 281, 565, 555, 710, 82, 896, 831,
    547, 261, 524, 462, 293, 465, 502, 56, 661, 821, 976, 991, 658, 869, 905, 758, 745, 193, 768,
    550, 608, 933, 378, 286, 215, 979, 792, 961, 61, 688, 793, 644, 986, 403, 106, 366, 905, 644,
    372, 567, 466, 434, 645, 210, 389, 550, 919, 135, 780, 773, 635, 389, 707, 100, 626, 958,
    165, 504, 920, 176, 193, 713, 857, 265, 203, 50, 668, 108, 645, 990, 626, 197, 510, 357, 358,
    850, 858, 364, 936, 638]

structure Disturbance where
  left : Nat := 0
  stretch : Nat := 0

def Disturbance.next (d : Disturbance) : Bool × Disturbance :=
  let d := if d.left = 0 then ⟨stretches.getD d.stretch 0, (d.stretch + 1) % stretches.size⟩ else d
  (d.left == 2, { d with left := d.left - 1 })

def undisturbed (bytes : Array UInt8) : Array UInt8 :=
  (bytes.foldl (fun state b =>
    let (wrong, d) := state.2.next
    (state.1.push (if wrong then b ^^^ 1 else b), d)) ((#[], {}) : Array UInt8 × Disturbance)).1

/-! Four equal bytes are followed by the number of further ones. -/

structure Runs where
  output : Array UInt8 := #[]
  last : UInt8 := 0
  equal : Nat := 0

def Runs.next (r : Runs) (b : UInt8) : Runs :=
  if r.equal = 4 then { r with output := r.output ++ Array.replicate b.toNat r.last, equal := 0 }
  else if r.equal ≠ 0 ∧ b = r.last then { r with output := r.output.push b, equal := r.equal + 1 }
  else ⟨r.output.push b, b, 1⟩

def lengthened? (bytes : Array UInt8) : Option (Array UInt8) :=
  let runs := bytes.foldl Runs.next {}
  if runs.equal = 4 then none else some runs.output

-- Bits are read the other way round, and so the checksum is that of an archive entry.
def checksum (bytes : Array UInt8) : UInt32 := Crc32.checksum (bytes.toList.map turned)

end ClassAtlas.Bzip2
