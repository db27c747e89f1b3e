import FileIndex.Text.CharacterClass

/-!
# Classes of characters for word boundaries

* `WordBreak.of`: the class of a character by which the boundaries of words are found.
* `WordBreak.behind`: the class that it has behind a character of a given class.
-/

namespace FileIndex.Text

/-- How a character takes part in words. -/
inductive WordBreak
  /-- Carriage return. -/
  | carriageReturn
  /-- Line feed. -/
  | lineFeed
  /-- Other line ends. -/
  | newline
  /-- Marks and other characters that extend the one before them. -/
  | extend
  /-- The zero width joiner. -/
  | joiner
  /-- Invisible characters that control the layout. -/
  | format
  /-- Letters that make up flags in pairs. -/
  | regionalIndicator
  /-- Katakana. -/
  | katakana
  /-- Letters of the Hebrew script. -/
  | hebrewLetter
  /-- Letters of other scripts that separate words. -/
  | letter
  /-- The apostrophe. -/
  | singleQuote
  /-- The quotation mark. -/
  | doubleQuote
  /-- Characters that join letters or digits. -/
  | midNumLetter
  /-- Characters that join letters. -/
  | midLetter
  /-- Characters that join digits. -/
  | midNum
  /-- Digits. -/
  | numeric
  /-- Connectors, such as the underscore. -/
  | extendNumLetter
  /-- Blanks. -/
  | space
  /-- A picture that a joiner in front of it ties to what comes before. -/
  | tiedPicture
  /-- All other characters. -/
  | other
  deriving DecidableEq, Repr, Inhabited

namespace WordBreak

/-- The classes in the order in which the table numbers them. -/
def classes : Array WordBreak :=
  #[.carriageReturn, .lineFeed, .newline, .extend, .joiner, .format,
    .regionalIndicator, .katakana, .hebrewLetter, .letter, .singleQuote,
    .doubleQuote, .midNumLetter, .midLetter, .midNum, .numeric, .extendNumLetter, .space]

/-- The characters that have a class, with its number. -/
def numbers : RangeTable := .ofText "
  A=1 B-C=2 D=0 20=11 22=B 27=A 2C=E 2E=C 30-39=F 3A=D 3B=E 41-5A=9 5F=10 61-7A=9 85=2 AA=9
  AD=5 B5=9 B7=D B8=9 BA=9 C0-D6=9 D8-F6=9 F8-2D7=9 2DE-2FF=9 300-36F=3 370-374=9 376-377=9
  37A-37D=9 37E=E 37F=9 386=9 387=D 388-38A=9 38C=9 38E-3A1=9 3A3-3F5=9 3F7-481=9 483-489=3
  48A-52F=9 531-556=9 559-55C=9 55E=9 55F=D 560-588=9 589=E 58A=9 591-5BD=3 5BF=3 5C1-5C2=3
  5C4-5C5=3 5C7=3 5D0-5EA=8 5EF-5F2=8 5F3=9 5F4=D 600-605=F 60C-60D=E 610-61A=3 61C=5
  620-64A=9 64B-65F=3 660-669=F 66B=F 66C=E 66E-66F=9 670=3 671-6D3=9 6D5=9 6D6-6DC=3 6DD=F
  6DF-6E4=3 6E5-6E6=9 6E7-6E8=3 6EA-6ED=3 6EE-6EF=9 6F0-6F9=F 6FA-6FC=9 6FF=9 70F-710=9 711=3
  712-72F=9 730-74A=3 74D-7A5=9 7A6-7B0=3 7B1=9 7C0-7C9=F 7CA-7EA=9 7EB-7F3=3 7F4-7F5=9 7F8=E
  7FA=9 7FD=3 800-815=9 816-819=3 81A=9 81B-823=3 824=9 825-827=3 828=9 829-82D=3 840-858=9
  859-85B=3 860-86A=9 870-887=9 889-88F=9 890-891=F 897-89F=3 8A0-8C9=9 8CA-8E1=3 8E2=F
  8E3-903=3 904-939=9 93A-93C=3 93D=9 93E-94F=3 950=9 951-957=3 958-961=9 962-963=3 966-96F=F
  971-980=9 981-983=3 985-98C=9 98F-990=9 993-9A8=9 9AA-9B0=9 9B2=9 9B6-9B9=9 9BC=3 9BD=9
  9BE-9C4=3 9C7-9C8=3 9CB-9CD=3 9CE=9 9D7=3 9DC-9DD=9 9DF-9E1=9 9E2-9E3=3 9E6-9EF=F 9F0-9F1=9
  9FC=9 9FE=3 A01-A03=3 A05-A0A=9 A0F-A10=9 A13-A28=9 A2A-A30=9 A32-A33=9 A35-A36=9 A38-A39=9
  A3C=3 A3E-A42=3 A47-A48=3 A4B-A4D=3 A51=3 A59-A5C=9 A5E=9 A66-A6F=F A70-A71=3 A72-A74=9
  A75=3 A81-A83=3 A85-A8D=9 A8F-A91=9 A93-AA8=9 AAA-AB0=9 AB2-AB3=9 AB5-AB9=9 ABC=3 ABD=9
  ABE-AC5=3 AC7-AC9=3 ACB-ACD=3 AD0=9 AE0-AE1=9 AE2-AE3=3 AE6-AEF=F AF9=9 AFA-AFF=3 B01-B03=3
  B05-B0C=9 B0F-B10=9 B13-B28=9 B2A-B30=9 B32-B33=9 B35-B39=9 B3C=3 B3D=9 B3E-B44=3 B47-B48=3
  B4B-B4D=3 B55-B57=3 B5C-B5D=9 B5F-B61=9 B62-B63=3 B66-B6F=F B71=9 B82=3 B83=9 B85-B8A=9
  B8E-B90=9 B92-B95=9 B99-B9A=9 B9C=9 B9E-B9F=9 BA3-BA4=9 BA8-BAA=9 BAE-BB9=9 BBE-BC2=3
  BC6-BC8=3 BCA-BCD=3 BD0=9 BD7=3 BE6-BEF=F C00-C04=3 C05-C0C=9 C0E-C10=9 C12-C28=9 C2A-C39=9
  C3C=3 C3D=9 C3E-C44=3 C46-C48=3 C4A-C4D=3 C55-C56=3 C58-C5A=9 C5C-C5D=9 C60-C61=9 C62-C63=3
  C66-C6F=F C80=9 C81-C83=3 C85-C8C=9 C8E-C90=9 C92-CA8=9 CAA-CB3=9 CB5-CB9=9 CBC=3 CBD=9
  CBE-CC4=3 CC6-CC8=3 CCA-CCD=3 CD5-CD6=3 CDC-CDE=9 CE0-CE1=9 CE2-CE3=3 CE6-CEF=F CF1-CF2=9
  CF3=3 D00-D03=3 D04-D0C=9 D0E-D10=9 D12-D3A=9 D3B-D3C=3 D3D=9 D3E-D44=3 D46-D48=3 D4A-D4D=3
  D4E=9 D54-D56=9 D57=3 D5F-D61=9 D62-D63=3 D66-D6F=F D7A-D7F=9 D81-D83=3 D85-D96=9 D9A-DB1=9
  DB3-DBB=9 DBD=9 DC0-DC6=9 DCA=3 DCF-DD4=3 DD6=3 DD8-DDF=3 DE6-DEF=F DF2-DF3=3 E31=3
  E34-E3A=3 E47-E4E=3 E50-E59=F EB1=3 EB4-EBC=3 EC8-ECE=3 ED0-ED9=F F00=9 F18-F19=3 F20-F29=F
  F35=3 F37=3 F39=3 F3E-F3F=3 F40-F47=9 F49-F6C=9 F71-F84=3 F86-F87=3 F88-F8C=9 F8D-F97=3
  F99-FBC=3 FC6=3 102B-103E=3 1040-1049=F 1056-1059=3 105E-1060=3 1062-1064=3 1067-106D=3
  1071-1074=3 1082-108D=3 108F=3 1090-1099=F 109A-109D=3 10A0-10C5=9 10C7=9 10CD=9 10D0-10FA=9
  10FC-1248=9 124A-124D=9 1250-1256=9 1258=9 125A-125D=9 1260-1288=9 128A-128D=9 1290-12B0=9
  12B2-12B5=9 12B8-12BE=9 12C0=9 12C2-12C5=9 12C8-12D6=9 12D8-1310=9 1312-1315=9 1318-135A=9
  135D-135F=3 1380-138F=9 13A0-13F5=9 13F8-13FD=9 1401-166C=9 166F-167F=9 1680=11 1681-169A=9
  16A0-16EA=9 16EE-16F8=9 1700-1711=9 1712-1715=3 171F-1731=9 1732-1734=3 1740-1751=9
  1752-1753=3 1760-176C=9 176E-1770=9 1772-1773=3 17B4-17D3=3 17DD=3 17E0-17E9=F 180B-180D=3
  180E=5 180F=3 1810-1819=F 1820-1878=9 1880-1884=9 1885-1886=3 1887-18A8=9 18A9=3 18AA=9
  18B0-18F5=9 1900-191E=9 1920-192B=3 1930-193B=3 1946-194F=F 19D0-19DA=F 1A00-1A16=9
  1A17-1A1B=3 1A55-1A5E=3 1A60-1A7C=3 1A7F=3 1A80-1A89=F 1A90-1A99=F 1AB0-1ADD=3 1AE0-1AEB=3
  1B00-1B04=3 1B05-1B33=9 1B34-1B44=3 1B45-1B4C=9 1B50-1B59=F 1B6B-1B73=3 1B80-1B82=3
  1B83-1BA0=9 1BA1-1BAD=3 1BAE-1BAF=9 1BB0-1BB9=F 1BBA-1BE5=9 1BE6-1BF3=3 1C00-1C23=9
  1C24-1C37=3 1C40-1C49=F 1C4D-1C4F=9 1C50-1C59=F 1C5A-1C7D=9 1C80-1C8A=9 1C90-1CBA=9
  1CBD-1CBF=9 1CD0-1CD2=3 1CD4-1CE8=3 1CE9-1CEC=9 1CED=3 1CEE-1CF3=9 1CF4=3 1CF5-1CF6=9
  1CF7-1CF9=3 1CFA=9 1D00-1DBF=9 1DC0-1DFF=3 1E00-1F15=9 1F18-1F1D=9 1F20-1F45=9 1F48-1F4D=9
  1F50-1F57=9 1F59=9 1F5B=9 1F5D=9 1F5F-1F7D=9 1F80-1FB4=9 1FB6-1FBC=9 1FBE=9 1FC2-1FC4=9
  1FC6-1FCC=9 1FD0-1FD3=9 1FD6-1FDB=9 1FE0-1FEC=9 1FF2-1FF4=9 1FF6-1FFC=9 2000-2006=11
  2008-200A=11 200C=3 200D=4 200E-200F=5 2018-2019=C 2024=C 2027=D 2028-2029=2 202A-202E=5
  202F=10 203F-2040=10 2044=E 2054=10 205F=11 2060-2064=5 2066-206F=5 2071=9 207F=9
  2090-209C=9 20D0-20F0=3 2102=9 2107=9 210A-2113=9 2115=9 2119-211D=9 2124=9 2126=9 2128=9
  212A-212D=9 212F-2139=9 213C-213F=9 2145-2149=9 214E=9 2160-2188=9 24B6-24E9=9 2C00-2CE4=9
  2CEB-2CEE=9 2CEF-2CF1=3 2CF2-2CF3=9 2D00-2D25=9 2D27=9 2D2D=9 2D30-2D67=9 2D6F=9 2D7F=3
  2D80-2D96=9 2DA0-2DA6=9 2DA8-2DAE=9 2DB0-2DB6=9 2DB8-2DBE=9 2DC0-2DC6=9 2DC8-2DCE=9
  2DD0-2DD6=9 2DD8-2DDE=9 2DE0-2DFF=3 2E2F=9 3000=11 3005=9 302A-302F=3 3031-3035=7
  303B-303C=9 3099-309A=3 309B-309C=7 30A0-30FA=7 30FC-30FF=7 3105-312F=9 3131-318E=9
  31A0-31BF=9 31F0-31FF=7 32D0-32FE=7 3300-3357=7 A000-A48C=9 A4D0-A4FD=9 A500-A60C=9
  A610-A61F=9 A620-A629=F A62A-A62B=9 A640-A66E=9 A66F-A672=3 A674-A67D=3 A67F-A69D=9
  A69E-A69F=3 A6A0-A6EF=9 A6F0-A6F1=3 A708-A7DC=9 A7F1-A801=9 A802=3 A803-A805=9 A806=3
  A807-A80A=9 A80B=3 A80C-A822=9 A823-A827=3 A82C=3 A840-A873=9 A880-A881=3 A882-A8B3=9
  A8B4-A8C5=3 A8D0-A8D9=F A8E0-A8F1=3 A8F2-A8F7=9 A8FB=9 A8FD-A8FE=9 A8FF=3 A900-A909=F
  A90A-A925=9 A926-A92D=3 A930-A946=9 A947-A953=3 A960-A97C=9 A980-A983=3 A984-A9B2=9
  A9B3-A9C0=3 A9CF=9 A9D0-A9D9=F A9E5=3 A9F0-A9F9=F AA00-AA28=9 AA29-AA36=3 AA40-AA42=9 AA43=3
  AA44-AA4B=9 AA4C-AA4D=3 AA50-AA59=F AA7B-AA7D=3 AAB0=3 AAB2-AAB4=3 AAB7-AAB8=3 AABE-AABF=3
  AAC1=3 AAE0-AAEA=9 AAEB-AAEF=3 AAF2-AAF4=9 AAF5-AAF6=3 AB01-AB06=9 AB09-AB0E=9 AB11-AB16=9
  AB20-AB26=9 AB28-AB2E=9 AB30-AB69=9 AB70-ABE2=9 ABE3-ABEA=3 ABEC-ABED=3 ABF0-ABF9=F
  AC00-D7A3=9 D7B0-D7C6=9 D7CB-D7FB=9 FB00-FB06=9 FB13-FB17=9 FB1D=8 FB1E=3 FB1F-FB28=8
  FB2A-FB36=8 FB38-FB3C=8 FB3E=8 FB40-FB41=8 FB43-FB44=8 FB46-FB4F=8 FB50-FBB1=9 FBD3-FD3D=9
  FD50-FD8F=9 FD92-FDC7=9 FDF0-FDFB=9 FE00-FE0F=3 FE13=D FE20-FE2F=3 FE33-FE34=10 FE4D-FE4F=10
  FE50=E FE52=C FE54=E FE55=D FE70-FE74=9 FE76-FEFC=9 FEFF=5 FF07=C FF0C=E FF0E=C FF10-FF19=F
  FF1A=D FF1B=E FF21-FF3A=9 FF3F=10 FF41-FF5A=9 FF66-FF9D=7 FF9E-FF9F=3 FFA0-FFBE=9
  FFC2-FFC7=9 FFCA-FFCF=9 FFD2-FFD7=9 FFDA-FFDC=9 FFF9-FFFB=5 10000-1000B=9 1000D-10026=9
  10028-1003A=9 1003C-1003D=9 1003F-1004D=9 10050-1005D=9 10080-100FA=9 10140-10174=9 101FD=3
  10280-1029C=9 102A0-102D0=9 102E0=3 10300-1031F=9 1032D-1034A=9 10350-10375=9 10376-1037A=3
  10380-1039D=9 103A0-103C3=9 103C8-103CF=9 103D1-103D5=9 10400-1049D=9 104A0-104A9=F
  104B0-104D3=9 104D8-104FB=9 10500-10527=9 10530-10563=9 10570-1057A=9 1057C-1058A=9
  1058C-10592=9 10594-10595=9 10597-105A1=9 105A3-105B1=9 105B3-105B9=9 105BB-105BC=9
  105C0-105F3=9 10600-10736=9 10740-10755=9 10760-10767=9 10780-10785=9 10787-107B0=9
  107B2-107BA=9 10800-10805=9 10808=9 1080A-10835=9 10837-10838=9 1083C=9 1083F-10855=9
  10860-10876=9 10880-1089E=9 108E0-108F2=9 108F4-108F5=9 10900-10915=9 10920-10939=9
  10940-10959=9 10980-109B7=9 109BE-109BF=9 10A00=9 10A01-10A03=3 10A05-10A06=3 10A0C-10A0F=3
  10A10-10A13=9 10A15-10A17=9 10A19-10A35=9 10A38-10A3A=3 10A3F=3 10A60-10A7C=9 10A80-10A9C=9
  10AC0-10AC7=9 10AC9-10AE4=9 10AE5-10AE6=3 10B00-10B35=9 10B40-10B55=9 10B60-10B72=9
  10B80-10B91=9 10C00-10C48=9 10C80-10CB2=9 10CC0-10CF2=9 10D00-10D23=9 10D24-10D27=3
  10D30-10D39=F 10D40-10D49=F 10D4A-10D65=9 10D69-10D6D=3 10D6F-10D85=9 10E80-10EA9=9
  10EAB-10EAC=3 10EB0-10EB1=9 10EC2-10EC7=9 10EFA-10EFF=3 10F00-10F1C=9 10F27=9 10F30-10F45=9
  10F46-10F50=3 10F70-10F81=9 10F82-10F85=3 10FB0-10FC4=9 10FE0-10FF6=9 11000-11002=3
  11003-11037=9 11038-11046=3 11066-1106F=F 11070=3 11071-11072=9 11073-11074=3 11075=9
  1107F-11082=3 11083-110AF=9 110B0-110BA=3 110BD=F 110C2=3 110CD=F 110D0-110E8=9
  110F0-110F9=F 11100-11102=3 11103-11126=9 11127-11134=3 11136-1113F=F 11144=9 11145-11146=3
  11147=9 11150-11172=9 11173=3 11176=9 11180-11182=3 11183-111B2=9 111B3-111C0=3
  111C1-111C4=9 111C9-111CC=3 111CE-111CF=3 111D0-111D9=F 111DA=9 111DC=9 11200-11211=9
  11213-1122B=9 1122C-11237=3 1123E=3 1123F-11240=9 11241=3 11280-11286=9 11288=9
  1128A-1128D=9 1128F-1129D=9 1129F-112A8=9 112B0-112DE=9 112DF-112EA=3 112F0-112F9=F
  11300-11303=3 11305-1130C=9 1130F-11310=9 11313-11328=9 1132A-11330=9 11332-11333=9
  11335-11339=9 1133B-1133C=3 1133D=9 1133E-11344=3 11347-11348=3 1134B-1134D=3 11350=9
  11357=3 1135D-11361=9 11362-11363=3 11366-1136C=3 11370-11374=3 11380-11389=9 1138B=9
  1138E=9 11390-113B5=9 113B7=9 113B8-113C0=3 113C2=3 113C5=3 113C7-113CA=3 113CC-113D0=3
  113D1=9 113D2=3 113D3=9 113E1-113E2=3 11400-11434=9 11435-11446=3 11447-1144A=9
  11450-11459=F 1145E=3 1145F-11461=9 11480-114AF=9 114B0-114C3=3 114C4-114C5=9 114C7=9
  114D0-114D9=F 11580-115AE=9 115AF-115B5=3 115B8-115C0=3 115D8-115DB=9 115DC-115DD=3
  11600-1162F=9 11630-11640=3 11644=9 11650-11659=F 11680-116AA=9 116AB-116B7=3 116B8=9
  116C0-116C9=F 116D0-116E3=F 1171D-1172B=3 11730-11739=F 11800-1182B=9 1182C-1183A=3
  118A0-118DF=9 118E0-118E9=F 118FF-11906=9 11909=9 1190C-11913=9 11915-11916=9 11918-1192F=9
  11930-11935=3 11937-11938=3 1193B-1193E=3 1193F=9 11940=3 11941=9 11942-11943=3
  11950-11959=F 119A0-119A7=9 119AA-119D0=9 119D1-119D7=3 119DA-119E0=3 119E1=9 119E3=9
  119E4=3 11A00=9 11A01-11A0A=3 11A0B-11A32=9 11A33-11A39=3 11A3A=9 11A3B-11A3E=3 11A47=3
  11A50=9 11A51-11A5B=3 11A5C-11A89=9 11A8A-11A99=3 11A9D=9 11AB0-11AF8=9 11B60-11B67=3
  11BC0-11BE0=9 11BF0-11BF9=F 11C00-11C08=9 11C0A-11C2E=9 11C2F-11C36=3 11C38-11C3F=3 11C40=9
  11C50-11C59=F 11C72-11C8F=9 11C92-11CA7=3 11CA9-11CB6=3 11D00-11D06=9 11D08-11D09=9
  11D0B-11D30=9 11D31-11D36=3 11D3A=3 11D3C-11D3D=3 11D3F-11D45=3 11D46=9 11D47=3
  11D50-11D59=F 11D60-11D65=9 11D67-11D68=9 11D6A-11D89=9 11D8A-11D8E=3 11D90-11D91=3
  11D93-11D97=3 11D98=9 11DA0-11DA9=F 11DB0-11DDB=9 11DE0-11DE9=F 11EE0-11EF2=9 11EF3-11EF6=3
  11F00-11F01=3 11F02=9 11F03=3 11F04-11F10=9 11F12-11F33=9 11F34-11F3A=3 11F3E-11F42=3
  11F50-11F59=F 11F5A=3 11FB0=9 12000-12399=9 12400-1246E=9 12480-12543=9 12F90-12FF0=9
  13000-1342F=9 13430-1343F=5 13440=3 13441-13446=9 13447-13455=3 13460-143FA=9 14400-14646=9
  16100-1611D=9 1611E-1612F=3 16130-16139=F 16800-16A38=9 16A40-16A5E=9 16A60-16A69=F
  16A70-16ABE=9 16AC0-16AC9=F 16AD0-16AED=9 16AF0-16AF4=3 16B00-16B2F=9 16B30-16B36=3
  16B40-16B43=9 16B50-16B59=F 16B63-16B77=9 16B7D-16B8F=9 16D40-16D6C=9 16D70-16D79=F
  16E40-16E7F=9 16EA0-16EB8=9 16EBB-16ED3=9 16F00-16F4A=9 16F4F=3 16F50=9 16F51-16F87=3
  16F8F-16F92=3 16F93-16F9F=9 16FE0-16FE1=9 16FE3=9 16FE4=3 16FF0-16FF1=3 1AFF0-1AFF3=7
  1AFF5-1AFFB=7 1AFFD-1AFFE=7 1B000=7 1B120-1B122=7 1B155=7 1B164-1B167=7 1BC00-1BC6A=9
  1BC70-1BC7C=9 1BC80-1BC88=9 1BC90-1BC99=9 1BC9D-1BC9E=3 1BCA0-1BCA3=5 1CCF0-1CCF9=F
  1CF00-1CF2D=3 1CF30-1CF46=3 1D165-1D169=3 1D16D-1D172=3 1D173-1D17A=5 1D17B-1D182=3
  1D185-1D18B=3 1D1AA-1D1AD=3 1D242-1D244=3 1D400-1D454=9 1D456-1D49C=9 1D49E-1D49F=9 1D4A2=9
  1D4A5-1D4A6=9 1D4A9-1D4AC=9 1D4AE-1D4B9=9 1D4BB=9 1D4BD-1D4C3=9 1D4C5-1D505=9 1D507-1D50A=9
  1D50D-1D514=9 1D516-1D51C=9 1D51E-1D539=9 1D53B-1D53E=9 1D540-1D544=9 1D546=9 1D54A-1D550=9
  1D552-1D6A5=9 1D6A8-1D6C0=9 1D6C2-1D6DA=9 1D6DC-1D6FA=9 1D6FC-1D714=9 1D716-1D734=9
  1D736-1D74E=9 1D750-1D76E=9 1D770-1D788=9 1D78A-1D7A8=9 1D7AA-1D7C2=9 1D7C4-1D7CB=9
  1D7CE-1D7FF=F 1DA00-1DA36=3 1DA3B-1DA6C=3 1DA75=3 1DA84=3 1DA9B-1DA9F=3 1DAA1-1DAAF=3
  1DF00-1DF1E=9 1DF25-1DF2A=9 1E000-1E006=3 1E008-1E018=3 1E01B-1E021=3 1E023-1E024=3
  1E026-1E02A=3 1E030-1E06D=9 1E08F=3 1E100-1E12C=9 1E130-1E136=3 1E137-1E13D=9 1E140-1E149=F
  1E14E=9 1E290-1E2AD=9 1E2AE=3 1E2C0-1E2EB=9 1E2EC-1E2EF=3 1E2F0-1E2F9=F 1E4D0-1E4EB=9
  1E4EC-1E4EF=3 1E4F0-1E4F9=F 1E5D0-1E5ED=9 1E5EE-1E5EF=3 1E5F0=9 1E5F1-1E5FA=F 1E6C0-1E6DE=9
  1E6E0-1E6E2=9 1E6E3=3 1E6E4-1E6E5=9 1E6E6=3 1E6E7-1E6ED=9 1E6EE-1E6EF=3 1E6F0-1E6F4=9
  1E6F5=3 1E6FE-1E6FF=9 1E7E0-1E7E6=9 1E7E8-1E7EB=9 1E7ED-1E7EE=9 1E7F0-1E7FE=9 1E800-1E8C4=9
  1E8D0-1E8D6=3 1E900-1E943=9 1E944-1E94A=3 1E94B=9 1E950-1E959=F 1EE00-1EE03=9 1EE05-1EE1F=9
  1EE21-1EE22=9 1EE24=9 1EE27=9 1EE29-1EE32=9 1EE34-1EE37=9 1EE39=9 1EE3B=9 1EE42=9 1EE47=9
  1EE49=9 1EE4B=9 1EE4D-1EE4F=9 1EE51-1EE52=9 1EE54=9 1EE57=9 1EE59=9 1EE5B=9 1EE5D=9 1EE5F=9
  1EE61-1EE62=9 1EE64=9 1EE67-1EE6A=9 1EE6C-1EE72=9 1EE74-1EE77=9 1EE79-1EE7C=9 1EE7E=9
  1EE80-1EE89=9 1EE8B-1EE9B=9 1EEA1-1EEA3=9 1EEA5-1EEA9=9 1EEAB-1EEBB=9 1F130-1F149=9
  1F150-1F169=9 1F170-1F189=9 1F1E6-1F1FF=6 1F3FB-1F3FF=3 1FBF0-1FBF9=F E0001=5 E0020-E007F=3
  E0100-E01EF=3
"

/-- The class of a character. -/
def of (c : Char) : WordBreak :=
  match numbers.find? c with
  | none => .other
  | some r => classes.getD (r.values.headD 0) .other

/-- The class of a character that stands behind one of class `left`. -/
def behind (left : WordBreak) (c : Char) : WordBreak :=
  if left = joiner ∧ isPictographic c then tiedPicture else of c

end WordBreak
end FileIndex.Text
