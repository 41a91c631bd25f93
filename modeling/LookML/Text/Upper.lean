import LookML.Text.Lower

/-!
# Upper case

The full upper-case mapping: a character can become several, as the sharp s
becomes `SS`.
-/

namespace LookML.Text

/-- Characters with an upper-case form whose lower-case form is another character. -/
def upperVariants : List (Nat × Nat) :=
  [(181, 924), (305, 73), (383, 83), (453, 452), (456, 455), (459, 458), (498, 497), (837, 921),
   (962, 931), (976, 914), (977, 920), (981, 934), (982, 928), (1008, 922), (1009, 929),
   (1013, 917), (7296, 1042), (7297, 1044), (7298, 1054), (7299, 1057), (7300, 1058), (7301, 1058),
   (7302, 1066), (7303, 1122), (7304, 42570), (7835, 7776), (8126, 921)]

/-- Characters beyond ASCII with a one-character upper-case form. -/
def upperRuns : List CaseRun :=
  upperVariants.map (fun (letter, target) => .single letter target)
    ++ lowerRuns.map CaseRun.inverse

/-- Greek vowels with breathings and an iota below them, small and capital, whose upper-case forms
are the capitals followed by a capital iota: the first of 16 letters, and the first capital. -/
def iotaRows : List (Nat × Nat) :=
  [(8064, 7944), (8080, 7976), (8096, 8040)]

/-- Other characters whose upper-case form is a sequence of several characters. -/
def longUppers : List (Nat × List Nat) :=
  [(223, [83, 83]), (329, [700, 78]), (496, [74, 780]), (912, [921, 776, 769]),
   (944, [933, 776, 769]), (1415, [1333, 1362]), (7830, [72, 817]), (7831, [84, 776]),
   (7832, [87, 778]), (7833, [89, 778]), (7834, [65, 702]), (8016, [933, 787]),
   (8018, [933, 787, 768]), (8020, [933, 787, 769]), (8022, [933, 787, 834]), (8114, [8122, 921]),
   (8115, [913, 921]), (8116, [902, 921]), (8118, [913, 834]), (8119, [913, 834, 921]),
   (8124, [913, 921]), (8130, [8138, 921]), (8131, [919, 921]), (8132, [905, 921]),
   (8134, [919, 834]), (8135, [919, 834, 921]), (8140, [919, 921]), (8146, [921, 776, 768]),
   (8147, [921, 776, 769]), (8150, [921, 834]), (8151, [921, 776, 834]), (8162, [933, 776, 768]),
   (8163, [933, 776, 769]), (8164, [929, 787]), (8166, [933, 834]), (8167, [933, 776, 834]),
   (8178, [8186, 921]), (8179, [937, 921]), (8180, [911, 921]), (8182, [937, 834]),
   (8183, [937, 834, 921]), (8188, [937, 921]), (64256, [70, 70]), (64257, [70, 73]),
   (64258, [70, 76]), (64259, [70, 70, 73]), (64260, [70, 70, 76]), (64261, [83, 84]),
   (64262, [83, 84]), (64275, [1348, 1350]), (64276, [1348, 1333]), (64277, [1348, 1339]),
   (64278, [1358, 1350]), (64279, [1348, 1341])]

/-- Characters whose upper-case form is a sequence of several characters. -/
def upperSequences : List (Nat × List Nat) :=
  iotaRows.flatMap (fun (first, capital) =>
      (List.range 16).map fun n => (first + n, [capital + n % 8, 921]))
    ++ longUppers

def upperChar (c : Char) : Text :=
  if c.toNat < 0x80 then [c.toUpper] else mapCase upperRuns upperSequences c

/-- The text with every character replaced by its upper-case form. -/
def upper (text : Text) : Text :=
  text.flatMap upperChar

end LookML.Text
