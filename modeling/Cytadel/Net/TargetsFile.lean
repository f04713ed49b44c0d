import Cytadel.Net.Target

/-!
# The targets file

`src/net/targets_file.c`. A file is read by `fgets` into a buffer of 513 bytes,
one line at a time. Every call may meet a read error, and every allocation may
fail; both are told by the number of the call.
-/

namespace Cytadel.Net

open Cytadel

/-- What the process takes from outside: memory, name resolution, files. -/
structure NetEnv where
  /-- Does this allocation fail? -/
  alloc : ℕ → Bool
  /-- Does this `fgets` meet a read error? -/
  readError : ℕ → Bool
  getaddrinfo : ℕ → Bytes → Except Bytes (List Address)
  /-- The content of a file, or the text of `strerror`. -/
  openFile : Bytes → Except Bytes Bytes

/-- CYTADEL_TARGETS_FILE_LINE_MAX. -/
def targetsFileLineMax : ℕ := 512

/-- CYTADEL_TARGETS_FILE_MAX_LINES. -/
def targetsFileMaxLines : ℕ := 100000

/-- `cytadel_targets_file_status_t`, without its OK. -/
inductive TargetsFileError
  | errOpen
  | errLineTooLong
  | errTooManyLines
  | errAlloc
  deriving DecidableEq, Repr

/-- What `fgets` reads of a stream with room for so many bytes: up to the first
newline, which it keeps. -/
def fgetsChunk : ℕ → Bytes → Bytes
  | 0, _ => []
  | _ + 1, [] => []
  | room + 1, c :: cs => if c == 0x0A then [c] else c :: fgetsChunk room cs

/-- The whitespace at both ends taken off. -/
def trimSpaces (s : Bytes) : Bytes :=
  ((s.dropWhile isSpace).reverse.dropWhile isSpace).reverse

/-- `cytadel_targets_file_trim_line`, on the C string in the buffer. -/
def trimLine (line : Bytes) : Bytes :=
  let noNewline := (line.reverse.dropWhile fun c => c == 0x0A || c == 0x0D).reverse
  trimSpaces (noNewline.takeWhile fun c => c != 0x23)

/-- The state of the reading loop. -/
structure FileLines where
  lines : List Bytes
  capacity : ℕ
  calls : ℕ

/-- The reading loop; `fuel` bounds the calls of `fgets`, each of which takes a
byte at least. -/
def readLines (env : NetEnv) (path : Bytes) :
    ℕ → Bytes → FileLines → Except (TargetsFileError × Bytes) FileLines
  | 0, _, st => .ok st
  | fuel + 1, stream, st =>
      let chunk := fgetsChunk targetsFileLineMax stream
      if env.readError st.calls || chunk.isEmpty then .ok st
      else
        let rest := stream.drop chunk.length
        let st := { st with calls := st.calls + 1 }
        -- the end of the file shows only when the call runs into it
        let feof := chunk.length < targetsFileLineMax && chunk.getLast? != some 0x0A
        -- a NUL in the line hides what stands behind it
        let raw := cstr chunk
        if raw.getLast? != some 0x0A && !feof then
          .error (.errLineTooLong, ascii "targets file " ++ quoted path ++
            ascii " has a line longer than 511 bytes")
        else
          let trimmed := trimLine raw
          if trimmed.isEmpty then readLines env path fuel rest st
          else if st.lines.length ≥ targetsFileMaxLines then
            .error (.errTooManyLines, ascii "targets file " ++ quoted path ++
              ascii " has more than 100000 target lines")
          else
            let full := st.lines.length == st.capacity
            if full && env.alloc st.calls then
              .error (.errAlloc, ascii "out of memory reading targets file " ++ quoted path)
            else
              let st := if full then
                { st with
                  capacity := if st.capacity = 0 then 16 else st.capacity * 2
                  calls := st.calls + 1 }
                else st
              if env.alloc st.calls then
                .error (.errAlloc, ascii "out of memory reading targets file " ++ quoted path)
              else
                readLines env path fuel rest
                  { st with lines := st.lines ++ [trimmed], calls := st.calls + 1 }

/-- `cytadel_targets_file_read`. -/
def targetsFileRead (env : NetEnv) (errLen : ℕ) (path : Bytes) (calls : ℕ) :
    Except (TargetsFileError × Bytes) FileLines :=
  if path.isEmpty then
    .error (.errOpen, errText errLen
      (ascii "internal error: invalid arguments to targets-file reader"))
  else
    match env.openFile path with
    | .error reason =>
        .error (.errOpen, errText errLen
          (ascii "could not open targets file " ++ quoted path ++ ascii ": " ++ reason))
    | .ok content =>
        (readLines env path (content.length + 1) content ⟨[], 0, calls⟩).mapError fun e =>
          (e.1, errText errLen e.2)

end Cytadel.Net
